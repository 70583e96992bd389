import Messgr.Receipts.Runs

/-!
# Bounces and complaints suppress

A bounced or complaint receipt puts the destination of its request on the suppression list for 365
days, and no promotion moves a review date back. So until an operator edits the destination, it is
on the list, and a dispatch pass that reads the list in that time, for whatever request with that
destination, ends suppressed and never calls a provider (`bounce_suppresses`).
-/

namespace Messgr

open List Option Table Bool

/-! ## The list -/

/-- The destination is on the list at least until `review`. -/
def TenantDb.Listed (db : TenantDb) (destinationHmac : Bytes) (review : Time) : Prop :=
  ∃ r ∈ db.gates.suppression, r.destinationHmac = destinationHmac ∧ review ≤ r.reviewAt

section
variable {db db' : TenantDb} {h : Bytes} {review now : Time}

theorem TenantDb.Listed.of_eq (hl : db.Listed h review)
    (heq : db'.gates.suppression = db.gates.suppression) : db'.Listed h review := by
  rwa [TenantDb.Listed, heq]

theorem TenantDb.Listed.mono {review' : Time} (hl : db.Listed h review)
    (hle : review' ≤ review) : db.Listed h review' := by
  obtain ⟨r, hr, hk, hr'⟩ := hl
  exact ⟨r, hr, hk, Int.le_trans hle hr'⟩

/-- What a bounce does to the list: nothing if an entry lasts as long, else it puts its own in
place. -/
theorem suppress_eq (db : TenantDb) (h : Bytes) (reason : String) (now : Time) :
    (db.Listed h (now + 365 * day) ∧
      (db.suppress h reason now).gates.suppression = db.gates.suppression) ∨
    ∃ row, row.destinationHmac = h ∧ row.reviewAt = now + 365 * day ∧
      (∀ old ∈ db.gates.suppression, old.destinationHmac = h → old.reviewAt < row.reviewAt) ∧
      (db.suppress h reason now).gates.suppression = db.gates.suppression.upsert row := by
  simp only [TenantDb.suppress]
  cases hold : db.gates.suppression.find? h with
  | none => exact .inr ⟨_, rfl, rfl, fun old hr hk => absurd hk (find?_none hold hr), rfl⟩
  | some old =>
    obtain ⟨hmem, hk⟩ := Table.find?_some hold
    by_cases hlt : now + 365 * day > old.reviewAt
    · refine .inr ⟨_, rfl, rfl, fun old' hr hk' => ?_, if_pos hlt⟩
      rwa [eq_of_key hr hmem (hk'.trans hk.symm)]
    · exact .inl ⟨⟨old, hmem, hk, Int.not_lt.1 hlt⟩, if_neg hlt⟩

/-- The entry is there, or one that lasts as long. -/
theorem listed_suppress (db : TenantDb) (h : Bytes) (reason : String) (now : Time) :
    (db.suppress h reason now).Listed h (now + 365 * day) := by
  rcases suppress_eq db h reason now with ⟨hl, heq⟩ | ⟨row, hk, hrev, -, heq⟩
  · exact hl.of_eq heq
  · refine ⟨row, ?_, hk, Int.le_of_eq hrev.symm⟩
    rw [heq]
    exact mem_upsert.2 (.inl rfl)

/-- A suppression moves no review date back. -/
theorem TenantDb.Listed.suppress (hl : db.Listed h review) (h' : Bytes) (reason : String)
    (now : Time) : (db.suppress h' reason now).Listed h review := by
  rcases suppress_eq db h' reason now with ⟨-, heq⟩ | ⟨row, hk, -, hlt, heq⟩
  · exact hl.of_eq heq
  · obtain ⟨r, hr, rfl, hle⟩ := hl
    rw [TenantDb.Listed, heq]
    by_cases hrk : r.destinationHmac = h'
    · exact ⟨row, mem_upsert.2 (.inl rfl), hk.trans hrk.symm,
        Int.le_trans hle (Int.le_of_lt (hlt r hr hrk))⟩
    · exact ⟨r, mem_upsert.2 (.inr ⟨hr, fun heq => hrk (heq.trans hk)⟩), rfl, hle⟩

theorem TenantDb.Listed.promoteMatch (hl : db.Listed h review) (now : Time) (m : Match)
    (receipt : Receipt) (ciphertext : Option Bytes) :
    (promoteMatch db now m receipt ciphertext).Listed h review := by
  have hs := TenantDb.promoteMatch_suppression db now m receipt ciphertext
  split at hs
  · exact (hl.suppress _ _ _).of_eq hs
  · exact hl.of_eq hs

/-- A bounce or a complaint puts the destination on the list. -/
theorem listed_promoteMatch (db : TenantDb) (now : Time) (m : Match) {receipt : Receipt}
    (ciphertext : Option Bytes)
    (hr : receipt.eventType = .bounced ∨ receipt.eventType = .complaint) :
    (promoteMatch db now m receipt ciphertext).Listed m.destinationHmac (now + 365 * day) := by
  have hs := TenantDb.promoteMatch_suppression db now m receipt ciphertext
  rcases hr with hr | hr
  · rw [hr] at hs
    exact (listed_suppress _ _ _ _).of_eq hs
  · rw [hr] at hs
    exact (listed_suppress _ _ _ _).of_eq hs

/-- The gate finds what is on the list. -/
theorem TenantDb.Listed.isSuppressed (hl : db.Listed h review) {r : CommsRequest}
    {createdAt : Time} {id : Uuid} (hr : db.commsRequest.find? (createdAt, id) = some r)
    (hh : r.destinationHmac = h) (hlt : now < review) :
    isSuppressed db now createdAt id = true := by
  obtain ⟨e, he, rfl, hle⟩ := hl
  obtain ⟨hmem, hk⟩ := Table.find?_some hr
  obtain ⟨rfl, rfl⟩ := Prod.mk.inj hk
  refine List.any_eq_true.2 ⟨r, hmem, ?_⟩
  simp only [decide_true, Bool.true_and, List.any_eq_true, Bool.and_eq_true, decide_eq_true_eq]
  exact ⟨e, he, hh.symm, Int.lt_of_lt_of_le hlt hle⟩

end

namespace Receipts

/-- An operator's edit of the destination. -/
def edits (destinationHmac : Bytes) : Act → Bool
  | .env (.addSuppression input) => input.destinationHmac = destinationHmac
  | .env (.removeSuppression h _) => h = destinationHmac
  | _ => false

section
variable {w w' : World} {a : Act} {as : List Act} {h : Bytes} {review : Time} {s : Inbox}

/-- What a statement of a run does to the list. -/
theorem Change.listed_of_run {A : Allowed} {s' : Inbox} {t : Nat} (hc : Change A s (some t) s')
    (hl : s.db.Listed h review) : s'.db.Listed h review := by
  cases hc with
  | promoted x => rw [promote_db]; exact hl.promoteMatch _ _ _ _
  | orphaned _ done => obtain ⟨_, _, -, -, rfl⟩ := toOrphan_eq done; exact hl
  | deleted t id cap =>
    rcases deleteMissed_eq s t id cap with heq | ⟨r, -, -, -, heq⟩ <;> rw [heq] <;> exact hl
  | _ => exact hl

/-- An operator's removal of another destination. -/
theorem listed_retireNow {h' : Bytes} (hl : s.db.Listed h review) (hne : h' ≠ h) (now : Time) :
    (s.retireNow h' now).db.Listed h review := by
  obtain ⟨r, hr, hk, hle⟩ := hl
  have hnot : (decide (r.destinationHmac = h') && decide (r.reviewAt > now)) = false := by
    rw [decide_eq_false fun heq => hne (heq.symm.trans hk), Bool.false_and]
  refine ⟨r, ?_, hk, hle⟩
  simp only [Inbox.retireNow, Inbox.withSuppression, Inbox.note, mem_update]
  exact .inl ⟨hr, hnot⟩

/-- An operator's entry for another destination. -/
theorem listed_upsertSuppression {input : SuppressionRow} (hl : s.db.Listed h review)
    (hne : input.destinationHmac ≠ h) : (s.upsertSuppression input).db.Listed h review := by
  obtain ⟨r, hr, hk, hle⟩ := hl
  refine ⟨r, mem_upsert.2 (.inr ⟨hr, fun heq => hne ?_⟩), hk, hle⟩
  rw [← hk, heq]
  split <;> rfl

/-- A move that is no operator's edit of the destination moves no review date back. -/
theorem listed_move {s' : Inbox} {x : Move} (hl : s.db.Listed h review)
    (ha : edits h (.env x) = false) (hx : s.move x = some s') : s'.db.Listed h review := by
  cases x with
  | deliver row =>
    rcases insertStaging_eq hx with ⟨-, rfl⟩ | ⟨_, _, -, -, rfl⟩ <;> exact hl
  | addSuppression input =>
    cases hx
    exact listed_upsertSuppression hl (of_decide_eq_false ha)
  | removeSuppression h' now =>
    cases hx
    exact listed_retireNow hl (of_decide_eq_false ha) now
  | createPartition | beginPass => cases hx; exact hl
  | accept now c =>
    simp only [Inbox.move] at hx
    split at hx
    · next hi =>
      cases hx
      exact hl.of_eq (by rw [(TenantDb.Extends.insertTransactional hi).gates])
    · cases hx
      exact hl
  | audit now r =>
    cases hx
    exact hl.of_eq (by rw [(TenantDb.Extends.writeAuditRecord _ _ _).gates])
  | pass i env =>
    obtain ⟨cfg, row, stage, -, rfl⟩ := pass_eq hx
    exact hl.of_eq (by rw [(TenantDb.keeps_tryProcess _ _ _ _ _).2])

/-- Nor does any other step. -/
theorem listed_step [Aes256Gcm] (hl : w.shared.db.Listed h review) (ha : edits h a = false)
    (hs : system.step w a = some w') : w'.shared.db.Listed h review := by
  cases a with
  | start i => cases hs; exact hl
  | step t e =>
    obtain ⟨s1, hc, heq⟩ := changes_of_step hs
    have hl1 := hc.listed_of_run hl
    rcases heq with rfl | ⟨u, id, -, heq⟩
    · exact hl1
    · rw [heq]
      exact hl1
  | env x =>
    obtain ⟨s', hx, rfl⟩ := map_eq_some_iff.1 hs
    exact listed_move hl ha hx

/-- So until an operator edits the destination, it stays on the list. -/
theorem listed_of_run [Aes256Gcm] (hl : w.shared.db.Listed h review)
    (hr : Run.Steps system.step (fun _ a => edits h a = false) w as w') :
    w'.shared.db.Listed h review :=
  hr.inv (I := fun w => w.shared.db.Listed h review) (fun _ _ _ ha hs hl => listed_step hl ha hs) hl

end

/-! ## Passes -/

/-- The observation is one of the pass `i` calling a provider or writing its row. -/
def Obs.sends (i : Nat) : Obs → Bool
  | .called j | .wrote j _ => j = i
  | _ => false

/-- The pass has not read the suppression list yet. -/
def early : Next → Bool
  | .goto .expiry | .goto .suppression => true
  | _ => false

/-- A pass that has not read the list has done nothing, and so has one that has not begun. -/
def Unsent (s : Inbox) : Prop :=
  ∀ i, (∀ p, s.passes[i]? = some p → early p.next = true) → ∀ o ∈ s.log, o.sends i = false

/-- The pass `i` over `row` has been refused by the suppression gate: it makes no call, and writes
`suppressed_list` or fails. -/
structure Refused (i : Nat) (cfg : Config) (row : OutboxRow) (s : Inbox) : Prop where
  request : ∃ r ∈ s.db.commsRequest, r.key = (row.createdAt, row.commsRequestId)
  silent : .called i ∉ s.log
  written : ∀ finalStatus?, .wrote i finalStatus? ∈ s.log → finalStatus? = some .suppressedList
  next : ∃ next, s.passes[i]? = some ⟨cfg, row, next⟩ ∧
    (next = .goto (.terminal .suppressedList none none) ∨ (∃ e, next = .ended (.error e)) ∨
      next = .ended (.ok ()) ∧ .wrote i (some .suppressedList) ∈ s.log)

section
variable {s s' : Inbox} {u : Option Nat} {A : Allowed} {cfg : Config} {row : OutboxRow} {env : Env}
  {i : Nat}
variable {db : TenantDb} {j : Nat}

/-- The expiry gate is the only one before the list. -/
theorem eq_expiry_of_early {stage : Stage}
    (h : early (Messgr.tryProcess cfg db row env stage).1 = true) : stage = .expiry := by
  cases stage <;>
    simp only [Messgr.tryProcess, Next.read, Next.write, Next.databaseError] at h <;>
    grind [early]

theorem sends_of_mem_passObs {stage : Stage} {o : Obs} (h : o ∈ s.passObs j row env db stage)
    (ho : o.sends i = true) :
    j = i ∧ (stage = .send ∨ ∃ status providerRef providerStatus,
      stage = .terminal status providerRef providerStatus) := by
  rcases mem_passObs h with ⟨r, -, -, -, rfl⟩ | ⟨hst, rfl⟩ | ⟨_, _, _, hst, -, rfl⟩
  · cases ho
  · exact ⟨of_decide_eq_true ho, .inl hst⟩
  · exact ⟨of_decide_eq_true ho, .inr ⟨_, _, _, hst⟩⟩

/-- No pass moves. One may begin. -/
structure Idle (s s' : Inbox) : Prop where
  passes : ∀ (i : Nat) p, s.passes[i]? = some p → s'.passes[i]? = some p
  begun : ∀ (i : Nat) p, s'.passes[i]? = some p → s.passes[i]? = some p ∨ early p.next = true
  log : ∀ o ∈ s'.log, o ∈ s.log ∨ ∀ i, o.sends i = false

theorem Idle.of_log {l : List Obs} (hp : s'.passes = s.passes) (hl : s'.log = s.log ++ l)
    (h : ∀ o ∈ l, ∀ i, o.sends i = false) : Idle s s' where
  passes i p hi := by rwa [hp]
  begun i p hi := by rw [hp] at hi; exact .inl hi
  log o ho := by
    rw [hl] at ho
    exact (mem_append.1 ho).imp_right (h o)

theorem Idle.snoc {o : Obs} (hp : s'.passes = s.passes) (hl : s'.log = s.log ++ [o])
    (h : ∀ i, o.sends i = false) : Idle s s' :=
  .of_log hp hl fun _ ho i => by rw [mem_singleton.1 ho]; exact h i

theorem Idle.same (hp : s'.passes = s.passes) (hl : s'.log = s.log) : Idle s s' :=
  .of_log (l := []) hp (by rw [hl, append_nil]) fun _ ho => absurd ho not_mem_nil

/-- What a change does to the passes. -/
theorem Change.idle (h : Change A s u s') : (∃ i env, s.pass i env = some s') ∨ Idle s s' := by
  cases h with
  | passed _ done => exact .inl ⟨_, _, done⟩
  | same | partitioned | extended => exact .inr (.same rfl rfl)
  | begun cfg row =>
    refine .inr ⟨fun i p hi => ?_, fun i p hi => ?_, fun o ho => .inl ho⟩
    · rw [getElem?_append_left (List.getElem?_eq_some_iff.1 hi).1]
      exact hi
    · rcases Nat.lt_or_ge i s.passes.length with hlt | hge
      · exact .inl (getElem?_append_left hlt ▸ hi)
      · rw [getElem?_append_right hge] at hi
        rw [mem_singleton.1 (mem_of_getElem? hi)]
        exact .inr rfl
  | promoted x =>
    refine .inr (.snoc ?_ rfl fun _ => rfl)
    unfold Inbox.promote Inbox.remove
    cases x.held <;> rfl
  | orphaned _ done =>
    obtain ⟨_, _, -, -, rfl⟩ := toOrphan_eq done
    exact .inr (.snoc rfl rfl fun _ => rfl)
  | deleted t id cap =>
    rcases deleteMissed_eq s t id cap with heq | ⟨r, -, -, -, heq⟩ <;> rw [heq]
    · exact .inr (.same rfl rfl)
    · exact .inr (.snoc rfl rfl fun _ => rfl)
  | stored done =>
    rcases insertStaging_eq done with ⟨-, rfl⟩ | ⟨_, _, -, -, rfl⟩ <;>
      exact .inr (.snoc rfl rfl fun _ => rfl)
  | _ => exact .inr (.snoc rfl rfl fun _ => rfl)

theorem Unsent.idle (h : Unsent s) (hi : Idle s s') : Unsent s' := by
  intro i hearly o ho
  rcases hi.log o ho with ho | hno
  · exact h i (fun p hp => hearly p (hi.passes i p hp)) o ho
  · exact hno i

/-- A step of a pass keeps those before the list idle. -/
theorem Unsent.pass (h : Unsent s) (hp : s.pass j env = some s') : Unsent s' := by
  obtain ⟨cfg, row, stage, hj, rfl⟩ := pass_eq hp
  intro i hearly o ho
  refine eq_false_iff.2 fun hsends => ?_
  -- the pass that moves is early before and after its step at the expiry gate only
  have hstage : j = i → stage = .expiry := by
    rintro rfl
    exact eq_expiry_of_early (hearly _ (getElem?_set_self (List.getElem?_eq_some_iff.1 hj).1))
  rcases mem_append.1 ho with ho | ho
  · refine eq_false_iff.1 (h i (fun p hpi => ?_) o ho) hsends
    by_cases hji : j = i
    · rw [← hji, hj] at hpi
      cases hpi
      rw [hstage hji]
      rfl
    · exact hearly p ((getElem?_set_ne hji).trans hpi)
  · obtain ⟨hji, hst⟩ := sends_of_mem_passObs ho hsends
    rw [hstage hji] at hst
    rcases hst with hst | ⟨_, _, _, hst⟩ <;> cases hst

theorem Refused.idle (h : Refused i cfg row s) (hk : s.db.Keeps s'.db) (hg : Grew s s')
    (hi : Idle s s') : Refused i cfg row s' := by
  have hnew : ∀ o ∈ s'.log, o.sends i = true → o ∈ s.log := fun o ho hs =>
    (hi.log o ho).resolve_right fun hno => eq_false_iff.1 (hno i) hs
  obtain ⟨r, hr, hrk⟩ := h.request
  obtain ⟨next, hn, hcases⟩ := h.next
  refine ⟨?_, fun hc => h.silent (hnew _ hc (decide_eq_true rfl)),
    fun y hy => h.written y (hnew _ hy (decide_eq_true rfl)), next, hi.passes i _ hn, ?_⟩
  · obtain ⟨r', hr', hk', -⟩ := hk.requests r hr
    exact ⟨r', hr', hk'.trans hrk⟩
  · exact hcases.imp_right fun h => h.imp_right fun h => ⟨h.1, hg.log _ h.2⟩

/-- The status of a request after the write that ends its pass. -/
theorem finalStatus_writeTerminal {r : CommsRequest} {createdAt : Time} {id : Uuid}
    (hr : r ∈ db.commsRequest) (hk : r.key = (createdAt, id)) (clock : Time)
    (customerId : Uuid) (status : Status) (providerRef providerStatus : Option String) :
    ((writeTerminal db clock createdAt id customerId status providerRef providerStatus
      status).commsRequest.find? (createdAt, id)).bind (·.finalStatus) = some status := by
  obtain ⟨rfl, rfl⟩ := Prod.mk.inj hk
  show ((db.insertEvent _).setFinalStatus _ _ _ _ |>.commsRequest.find? r.key).bind _ = _
  simp only [TenantDb.setFinalStatus, insertEvent_commsRequest, find?_update,
    find?_of_mem hr, map_some, decide_true, Bool.and_self, if_true, bind_some]

/-- The write of a pass that was refused. -/
theorem Refused.write (h : Refused i cfg row s)
    (hi : s.passes[i]? = some ⟨cfg, row, .goto (.terminal .suppressedList none none)⟩)
    (hp : s.pass i env = some s') : Refused i cfg row s' := by
  obtain ⟨cfg', row', stage, hi', rfl⟩ := pass_eq hp
  obtain ⟨r, hr, hrk⟩ := h.request
  rw [hi] at hi'
  cases hi'
  have hset := List.getElem?_eq_some_iff.1 hi |>.1
  have hfinal := fun clock => finalStatus_writeTerminal hr hrk clock row.customerId .suppressedList
    none none
  have hobs : ∀ o ∈ s.passObs i row env
      (Messgr.tryProcess cfg s.db row env (.terminal .suppressedList none none)).2
      (.terminal .suppressedList none none), o = .wrote i (some .suppressedList) := by
    intro o ho
    rcases mem_passObs ho with ⟨_, hst, -⟩ | ⟨hst, -⟩ | ⟨_, _, _, -, hne, rfl⟩
    · cases hst
    · cases hst
    · simp only [Messgr.tryProcess, Next.write]
      cases hreply : env.reply with
      | failed => exact absurd hreply hne
      | _ => rw [hfinal]
  refine ⟨?_, fun hc => ?_, fun y hy => ?_, _, getElem?_set_self hset, ?_⟩
  · obtain ⟨r', hr', hk', -⟩ := (TenantDb.keeps_tryProcess cfg s.db row env
      (.terminal .suppressedList none none)).1.requests r hr
    exact ⟨r', hr', hk'.trans hrk⟩
  · rcases mem_append.1 hc with hc | hc
    · exact h.silent hc
    · cases hobs _ hc
  · rcases mem_append.1 hy with hy | hy
    · exact h.written y hy
    · cases hobs _ hy
      rfl
  · cases hreply : env.reply with
    | ok =>
      refine .inr (.inr ⟨?_, mem_append_right _ ?_⟩)
      · simp only [Messgr.tryProcess, Next.write, hreply]
      · simp only [Inbox.passObs, Messgr.tryProcess, Next.write, hreply, hfinal, mem_singleton]
    | _ => exact .inr (.inl ⟨.database .failed, by simp only [Messgr.tryProcess, Next.write, hreply,
        Next.databaseError]⟩)

/-- A step of a pass keeps a refused one refused. -/
theorem Refused.pass (h : Refused i cfg row s) (hp : s.pass j env = some s') :
    Refused i cfg row s' := by
  obtain ⟨cfg', row', stage, hj, rfl⟩ := pass_eq hp
  obtain ⟨r, hr, hrk⟩ := h.request
  obtain ⟨next, hn, hcases⟩ := h.next
  have hrequest : ∃ r' ∈ (Messgr.tryProcess cfg' s.db row' env stage).2.commsRequest,
      r'.key = (row.createdAt, row.commsRequestId) := by
    obtain ⟨r', hr', hk', -⟩ := (TenantDb.keeps_tryProcess cfg' s.db row' env stage).1.requests r hr
    exact ⟨r', hr', hk'.trans hrk⟩
  by_cases hji : j = i
  · subst hji
    rw [hj] at hn
    cases hn
    have hlen := (List.getElem?_eq_some_iff.1 hj).1
    rcases hcases with hst | ⟨e, he⟩ | ⟨he, -⟩
    · cases hst
      exact h.write hj hp
    · cases he
    · cases he
  · have hold : ∀ o ∈ s.log ++ s.passObs j row' env (Messgr.tryProcess cfg' s.db row' env stage).2
        stage, o.sends i = true → o ∈ s.log := fun o ho hs =>
      (mem_append.1 ho).resolve_right fun ho => hji (sends_of_mem_passObs ho hs).1
    refine ⟨hrequest, fun hc => h.silent (hold _ hc (decide_eq_true rfl)),
      fun y hy => h.written y (hold _ hy (decide_eq_true rfl)), next,
      (getElem?_set_ne hji).trans hn, ?_⟩
    exact hcases.imp_right fun h => h.imp_right fun h => ⟨h.1, mem_append_left _ h.2⟩

theorem Refused.change (h : Refused i cfg row s) (hc : Change A s u s') : Refused i cfg row s' := by
  rcases hc.idle with ⟨j, env, hp⟩ | hi
  · exact h.pass hp
  · exact h.idle hc.keeps hc.grew hi

theorem Unsent.change (h : Unsent s) (hc : Change A s u s') : Unsent s' := by
  rcases hc.idle with ⟨j, env, hp⟩ | hi
  · exact h.pass hp
  · exact h.idle hi

/-- The gate refuses a pass whose destination is on the list. -/
theorem refused_of_listed {h : Bytes} {review : Time} {r : CommsRequest} (hu : Unsent s)
    (hl : s.db.Listed h review) (hi : s.passes[i]? = some ⟨cfg, row, .goto .suppression⟩)
    (hr : s.db.commsRequest.find? (row.createdAt, row.commsRequestId) = some r)
    (hh : r.destinationHmac = h) (hlt : env.now < review) (hp : s.pass i env = some s') :
    Refused i cfg row s' := by
  obtain ⟨cfg', row', stage, hi', rfl⟩ := pass_eq hp
  rw [hi] at hi'
  cases hi'
  have hold : ∀ o ∈ s.log ++ s.passObs i row env s.db .suppression, o.sends i = false := by
    intro o ho
    rcases mem_append.1 ho with ho | ho
    · refine hu i (fun p hp => ?_) o ho
      rw [hi] at hp
      cases hp
      rfl
    · refine eq_false_iff.2 fun hsends => ?_
      rcases (sends_of_mem_passObs ho hsends).2 with hst | ⟨_, _, _, hst⟩ <;> cases hst
  have hsup := hl.isSuppressed hr hh hlt
  refine ⟨⟨r, (Table.find?_some hr).1, (Table.find?_some hr).2⟩,
    fun hc => eq_false_iff.1 (hold _ hc) (decide_eq_true rfl),
    fun y hy => absurd (decide_eq_true rfl) (eq_false_iff.1 (hold _ hy)), _,
    getElem?_set_self (List.getElem?_eq_some_iff.1 hi).1, ?_⟩
  simp only [Messgr.tryProcess, hsup]
  cases env.reply with
  | ok => exact .inl rfl
  | _ => exact .inr (.inl ⟨_, rfl⟩)

end

/-! ## Suppression -/

section
variable [Aes256Gcm] {w w' : World} {as : List Act}
variable {C : World → Act → Prop}

theorem refused_of_run {i : Nat} {cfg : Config} {row : OutboxRow} (h : Refused i cfg row w.shared)
    (hr : Run.Steps system.step C w as w') : Refused i cfg row w'.shared := by
  refine hr.inv (I := fun w => Refused i cfg row w.shared) (fun w a w' _ hs h => ?_) h
  obtain ⟨s1, hc, rfl | ⟨t, id, -, heq⟩⟩ := changes_of_step hs
  · exact h.change hc
  · rw [heq]
    exact (h.change hc).idle (.refl _) (grew_note _ _) (.snoc rfl rfl fun _ => rfl)

theorem unsent_of_run {db : TenantDb} {partitions : List (Time × Time)}
    (hr : Run.Steps system.step C ⟨.start db partitions, []⟩ as w) : Unsent w.shared := by
  refine hr.inv (I := fun w => Unsent w.shared) (fun w a w' _ hs h => ?_)
    fun _ _ _ ho => absurd ho not_mem_nil
  obtain ⟨s1, hc, rfl | ⟨t, id, -, heq⟩⟩ := changes_of_step hs
  · exact h.change hc
  · rw [heq]
    exact (h.change hc).idle (.snoc rfl rfl fun _ => rfl)

/-- Until an operator edits the destination, it is on the list at least until `review`, and a pass
that reads the list before then, over a request of it, is refused for good. -/
def SuppressedUntil (h : Bytes) (review : Time) (w : World) : Prop :=
  ∀ as w', Run.Steps system.step (fun _ a => edits h a = false) w as w' →
    w'.shared.db.Listed h review ∧
    ∀ (i : Nat) cfg row r env w'', w'.shared.passes[i]? = some ⟨cfg, row, .goto .suppression⟩ →
      w'.shared.db.commsRequest.find? (row.createdAt, row.commsRequestId) = some r →
      r.destinationHmac = h → env.now < review →
      system.step w' (.env (.pass i env)) = some w'' →
      ∀ bs v, Run.Steps system.step Run.Any w'' bs v → Refused i cfg row v.shared

/-- In every run, the destination of a request is suppressed for 365 days from the promotion of a
bounced or complaint receipt for it, and nothing but an operator's edit moves a review date back. -/
theorem bounce_suppresses (db : TenantDb) (partitions : List (Time × Time)) :
    (∀ h review w as w', Run.Steps system.step (fun _ a => edits h a = false) w as w' →
      w.shared.db.Listed h review → w'.shared.db.Listed h review) ∧
    ∀ as w a w' x, Run.Steps system.step Run.Any ⟨.start db partitions, []⟩ as w →
      system.step w a = some w' → promotion? w a = some x →
      x.receipt.status = .bounced ∨ x.receipt.status = .complaint →
      ∃ r ∈ w'.shared.db.commsRequest, r.key = x.matched.key ∧
        SuppressedUntil r.destinationHmac (x.now + 365 * day) w' := by
  refine ⟨fun h review w as w' hr hl => listed_of_run hl hr, fun as w a w' x hw hs hx hstatus => ?_⟩
  have hw' := hw.snoc trivial hs
  have hsound := sound_of_run hw'
  obtain ⟨r, hr, hk, hh⟩ := hsound.log _ (hsound.log _ (mem_log_of_promotion? hs hx)).1.2
  refine ⟨r, hr, hk, fun bs v hv => ?_⟩
  have hl : w'.shared.db.Listed r.destinationHmac (x.now + 365 * day) := by
    rw [hh, db_of_promotion? hs hx]
    exact listed_promoteMatch _ _ _ _ hstatus
  have hlv := listed_of_run hl hv
  refine ⟨hlv, fun i cfg row r' env v' hi hr' hh' hlt hs' bs' u hu => ?_⟩
  obtain ⟨s', hp, rfl⟩ := Option.map_eq_some_iff.1 hs'
  have hunsent := unsent_of_run (hw'.append (hv.mono fun _ _ _ => trivial))
  exact refused_of_run (w := ⟨s', _⟩) (refused_of_listed hunsent hlv hi hr' hh' hlt hp) hu

end

/-- Another customer's request for the same destination, and its row of the queue. -/
def otherRequest : CommsRequest :=
  { sampleRequest with id := ⟨4⟩, customerId := ⟨5⟩, channel := "email", finalStatus := none }

def otherRow : OutboxRow :=
  ⟨⟨4⟩, 0, "email", .transactional, 0, ⟨5⟩, ⟨6⟩, ⟨3⟩, none, 0, none, none, 0, none⟩

def otherSettings : Config := ⟨["email"], 500, false, false⟩

/-- A tenant with both requests. -/
def twoRequests : TenantDb :=
  { sampleLedger with commsRequest := ⟨[sampleRequest, otherRequest], by decide⟩ }

/-- A bounce of the first request, up to its promotion. -/
def bounceLookedUp : List Act :=
  [.env (.deliver (.sample 10 .bounced 5)), .start .webhookPromote,
   .step 0 { staging := [.sample 10 .bounced 5] }, .step 0 {}, .step 0 {}, .step 0 {}]

/-- A pass over the second, up to its read of the list. -/
def passBegun : List Act := [.env (.beginPass otherSettings otherRow), .env (.pass 0 {})]

/-- The pass is where it reads the list. -/
def atGate (p : Pass) : Bool :=
  p.cfg = otherSettings && p.row = otherRow &&
    match p.next with
    | .goto .suppression => true
    | _ => false

theorem eq_of_atGate {p : Pass} (h : atGate p = true) :
    p = ⟨otherSettings, otherRow, .goto .suppression⟩ := by
  obtain ⟨cfg, row, next⟩ := p
  simp only [atGate, and_eq_true, decide_eq_true_eq] at h
  obtain ⟨⟨rfl, rfl⟩, hnext⟩ := h
  split at hnext
  · rfl
  · cases hnext

/-- The pass is refused. -/
theorem bounce_suppresses_twoRequests :
    ∃ w w' v v', Run.Steps (@system .sample).step Run.Any ⟨.start twoRequests [(0, 100)], []⟩
        bounceLookedUp w ∧
      (@system .sample).step w (.step 0 { now := 7 }) = some w' ∧
      Run.Steps (@system .sample).step (fun _ a => edits [7] a = false) w' passBegun v ∧
      (@system .sample).step v (.env (.pass 0 { now := 8 })) = some v' ∧
      Refused 0 otherSettings otherRow v'.shared := by
  obtain ⟨w, hw, hp⟩ := Run.Steps.exists_of_exec (@system .sample).step
    ⟨.start twoRequests [(0, 100)], []⟩ bounceLookedUp
    (fun w => (promotion? w (.step 0 { now := 7 })).any
        (fun x => x.receipt.status = .bounced && x.now = 7) &&
      ((@system .sample).step w (.step 0 { now := 7 })).any fun w' =>
        w'.shared.db.commsRequest.rows.all (·.destinationHmac = [7]) &&
        (Run.exec (fun s a => if !edits [7] a then (@system .sample).step s a else none) w'
          passBegun).any fun v =>
            v.shared.passes[0]?.any atGate &&
            (v.shared.db.commsRequest.find? (0, ⟨4⟩)).any (·.destinationHmac = [7]) &&
            ((@system .sample).step v (.env (.pass 0 { now := 8 }))).isSome) (by decide +kernel)
  obtain ⟨hx, hw'⟩ := Bool.and_eq_true_iff.1 hp
  obtain ⟨x, hx, hstatus⟩ := (Option.any_eq_true _ _).1 hx
  obtain ⟨w', hw', hrest⟩ := (Option.any_eq_true _ _).1 hw'
  simp only [Bool.and_eq_true, decide_eq_true_eq, List.all_eq_true] at hstatus hrest
  obtain ⟨v, hv, hgate⟩ := Run.Steps.exists_of_checked (@system .sample).step
    (fun _ a => !edits [7] a) w' passBegun _ hrest.2
  replace hv := hv.mono fun _ _ h => Bool.not_eq_true' _ |>.mp h
  simp only [Bool.and_eq_true, Option.any_eq_true, decide_eq_true_eq,
    Option.isSome_iff_exists] at hgate
  obtain ⟨⟨⟨p, hi, hp⟩, r, hr, hh⟩, v', hv'⟩ := hgate
  rw [eq_of_atGate hp] at hi
  obtain ⟨q, hq, -, hsup⟩ :=
    (@bounce_suppresses .sample twoRequests [(0, 100)]).2 _ w _ w' x hw hw' hx (.inl hstatus.1)
  rw [hrest.1 q hq, hstatus.2] at hsup
  exact ⟨w, w', v, v', hw, hw', hv, hv',
    (hsup _ v hv).2 0 _ _ r _ v' hi hr hh (by decide) hv' [] v' .nil⟩

end Receipts

end Messgr
