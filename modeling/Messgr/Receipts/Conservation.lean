import Messgr.Receipts.Runs

/-!
# No receipt is lost

A receipt that the webhook accepted moves from `webhook_receipt_staging` to `comms_event`, or by way
of `orphan_event`, in transactions of runs that may overlap and fail. Every copy that was ever
inserted is still held, or was promoted, handed over or deleted (`accounted_of_run`), and a deletion
comes after as many recorded misses as the cap of its run (`recorded_of_run`). Together they give
`receipts_conserved`.
-/

namespace Messgr.Receipts

open List Table

/-! ## Every copy is accounted for -/

/-- A copy is held, or left by a promotion, a hand-over or a deletion. -/
def Accounted (s : Inbox) (c : Copy) : Prop :=
  (∃ x, .promoted x ∈ s.log ∧ x.held = c.holding ∧ x.receipt.toPendingReceipt = c.receipt) ∨
  match c.holding with
  | .staging => (∃ r ∈ s.staging, r.toPendingReceipt = c.receipt) ∨
    ∃ t, .orphaned t c.receipt ∈ s.log
  | .orphan => (∃ r ∈ s.orphans, r.toPendingReceipt = c.receipt) ∨
    ∃ t cap, .deleted t c.receipt cap ∈ s.log

section
variable {s s' : Inbox} {u : Option Nat} {A : Allowed} {c : Copy} {p : PendingReceipt}

/-- What left its table stays accounted for, and so does a row that stays. -/
theorem Accounted.grew (h : Accounted s c) (hg : Grew s s')
    (hst : ∀ r ∈ s.staging, ⟨.staging, r.toPendingReceipt⟩ = c →
      (∃ r' ∈ s'.staging, r'.toPendingReceipt = r.toPendingReceipt) ∨ Accounted s' c)
    (hor : ∀ r ∈ s.orphans, ⟨.orphan, r.toPendingReceipt⟩ = c →
      (∃ r' ∈ s'.orphans, r'.toPendingReceipt = r.toPendingReceipt) ∨ Accounted s' c) :
    Accounted s' c := by
  obtain ⟨holding, p⟩ := c
  rcases h with ⟨x, hx, hh, hp⟩ | h
  · exact .inl ⟨x, hg.log _ hx, hh, hp⟩
  cases holding with
  | staging =>
    rcases h with ⟨r, hr, rfl⟩ | ⟨t, ht⟩
    · rcases hst r hr rfl with hkept | hacc
      · exact .inr (.inl hkept)
      · exact hacc
    · exact .inr (.inr ⟨t, hg.log _ ht⟩)
  | orphan =>
    rcases h with ⟨r, hr, rfl⟩ | ⟨t, cap, ht⟩
    · rcases hor r hr rfl with hkept | hacc
      · exact .inr (.inl hkept)
      · exact hacc
    · exact .inr (.inr ⟨t, cap, hg.log _ ht⟩)

/-- A change that keeps the rows of both tables. -/
theorem Accounted.of_rows (h : Accounted s c) (hg : Grew s s')
    (hst : ∀ r ∈ s.staging, r ∈ s'.staging)
    (hor : ∀ r ∈ s.orphans, ∃ r' ∈ s'.orphans, r'.toPendingReceipt = r.toPendingReceipt) :
    Accounted s' c :=
  h.grew hg (fun r hr _ => .inl ⟨r, hst r hr, rfl⟩) fun r hr _ => .inl (hor r hr)

/-- A promotion accounts for the row that it deletes. -/
theorem Accounted.promote {x : Promotion} (h : Accounted s c) (hc : Change A s u (s.promote x))
    (hs : Sound (s.promote x)) (hborn : c ∈ s.born) : Accounted (s.promote x) c := by
  have hlog : .promoted x ∈ (s.promote x).log := mem_append_right _ (.head _)
  have hx := (hs.log _ hlog).1.1
  -- a row with the id of the receipt is the receipt
  have hsame : c.receipt.id = x.receipt.id → Accounted (s.promote x) c := by
    intro hid
    have heq := eq_of_key (hc.born hborn) hx hid
    exact .inl ⟨x, hlog, by rw [heq], by rw [heq]⟩
  refine h.grew hc.grew (fun r hr hrc => ?_) fun r hr hrc => ?_
  · by_cases hid : r.id = x.receipt.id
    · exact .inr (hsame (by rw [← hrc]; exact hid))
    · refine .inl ⟨r, ?_, rfl⟩
      unfold Inbox.promote Inbox.remove
      cases x.held with
      | staging => exact mem_delete.2 ⟨hr, by simpa using hid⟩
      | orphan => exact hr
  · by_cases hid : r.id = x.receipt.id
    · exact .inr (hsame (by rw [← hrc]; exact hid))
    · refine .inl ⟨r, ?_, rfl⟩
      unfold Inbox.promote Inbox.remove
      cases x.held with
      | staging => exact hr
      | orphan => exact mem_delete.2 ⟨hr, by simpa using hid⟩

/-- Every copy that was inserted is accounted for. -/
def AllAccounted (s : Inbox) : Prop := ∀ c ∈ s.born, Accounted s c

/-- Every change keeps copies accounted for. -/
theorem AllAccounted.change (h : AllAccounted s) (hc : Change A s u s') (hs : Sound s') :
    AllAccounted s' := by
  have hc' := hc
  have hg := hc.grew
  cases hc with
  | promoted x =>
    intro c hcb
    have hold : c ∈ s.born := by
      revert hcb
      unfold Inbox.promote Inbox.remove
      cases x.held <;> exact id
    exact (h c hold).promote hc' hs hold
  | @orphaned t row newId _ _ done =>
    obtain ⟨born, orphans, hb, hor, rfl⟩ := toOrphan_eq done
    have hlog := hs.log (.orphaned t row.toPendingReceipt) (mem_append_right _ (.head _))
    intro c hcb
    rcases ((insert?_some hb).2 c).1 hcb with hcb | rfl
    · refine (h c hcb).grew hg (fun r hr hrc => ?_) fun r hr _ =>
        .inl ⟨r, ((insert?_some hor).2 r).2 (.inl hr), rfl⟩
      by_cases hid : r.id = row.id
      · -- the row that is deleted is the one that was handed over
        have heq := eq_of_key (hc'.born (hrc ▸ hcb)) hlog.1 hid
        refine .inr ?_
        rw [← hrc, heq]
        exact .inr (.inr ⟨t, mem_append_right _ (.head _)⟩)
      · exact .inl ⟨r, mem_delete.2 ⟨hr, by simpa using hid⟩, rfl⟩
    · exact .inr (.inl ⟨_, ((insert?_some hor).2 _).2 (.inr rfl), rfl⟩)
  | missed t id =>
    refine fun c hcb => (h c hcb).of_rows hg (fun r hr => hr) fun r hr => ?_
    by_cases hid : r.id = id
    · exact ⟨_, mem_countMiss.2 (.inr ⟨r, hr, hid, rfl⟩), rfl⟩
    · exact ⟨r, mem_countMiss.2 (.inl ⟨hr, hid⟩), rfl⟩
  | deleted t id cap =>
    rcases deleteMissed_eq s t id cap with heq | ⟨r0, hr0, hid0, -, heq⟩
    · rwa [heq]
    · rw [heq] at hg ⊢
      refine fun c hcb => (h c hcb).grew hg (fun r hr _ => .inl ⟨r, hr, rfl⟩) fun r hr hrc => ?_
      by_cases hid : r.id = id
      · obtain rfl := eq_of_key hr hr0 (hid.trans hid0.symm)
        subst hrc
        exact .inr (.inr (.inr ⟨t, cap, mem_append_right _ (.head _)⟩))
      · exact .inl ⟨r, mem_delete.2 ⟨hr, by simpa using hid⟩, rfl⟩
  | stored done =>
    rcases insertStaging_eq done with ⟨-, rfl⟩ | ⟨staging, born, hst, hb, rfl⟩
    · exact fun c hcb => (h c hcb).of_rows hg (fun r hr => hr) fun r hr => ⟨r, hr, rfl⟩
    · intro c hcb
      rcases ((insert?_some hb).2 c).1 hcb with hcb | rfl
      · exact (h c hcb).of_rows hg (fun r hr => ((insert?_some hst).2 r).2 (.inl hr))
          fun r hr => ⟨r, hr, rfl⟩
      · exact .inr (.inl ⟨_, ((insert?_some hst).2 _).2 (.inr rfl), rfl⟩)
  | passed _ done =>
    obtain ⟨cfg, row, stage, -, rfl⟩ := pass_eq done
    exact fun c hcb => (h c hcb).of_rows hg (fun r hr => hr) fun r hr => ⟨r, hr, rfl⟩
  | _ => exact fun c hcb => (h c hcb).of_rows hg (fun r hr => hr) fun r hr => ⟨r, hr, rfl⟩

end

/-! ## Deletions come after enough misses -/

/-- How often a miss of a row was recorded. -/
def misses (log : List Obs) (id : Uuid) : Nat :=
  log.countP fun
    | .missed _ id' recorded => recorded && id' = id
    | _ => false

/-- Every deletion in a log comes after as many recorded misses as its cap. -/
def Recorded (log : List Obs) : Prop :=
  ∀ pre t p cap, pre ++ [Obs.deleted t p cap] <+: log → cap ≤ misses pre p.id

theorem misses_append (log l : List Obs) (id : Uuid) :
    misses (log ++ l) id = misses log id + misses l id := countP_append

theorem Recorded.snoc {log : List Obs} {o : Obs} (h : Recorded log)
    (ho : ∀ t p cap, o = .deleted t p cap → cap ≤ misses log p.id) : Recorded (log ++ [o]) := by
  intro pre t p cap hpre
  rcases prefix_concat_iff.1 hpre with heq | hpre
  · obtain ⟨rfl, hlast⟩ := append_inj' heq rfl
    exact ho t p cap (singleton_inj.1 hlast).symm
  · exact h pre t p cap hpre

theorem Recorded.append {log l : List Obs} (h : Recorded log)
    (hl : ∀ t p cap, .deleted t p cap ∉ l) : Recorded (log ++ l) := by
  induction l generalizing log with
  | nil => rwa [append_nil]
  | cons o l ih =>
    have hsnoc : Recorded (log ++ [o]) :=
      h.snoc fun t p cap ho => absurd (ho ▸ mem_cons_self) (hl t p cap)
    rw [← singleton_append, ← append_assoc]
    exact ih hsnoc fun t p cap hm => hl t p cap (.tail _ hm)

/-- Attempts are recorded misses, and deletions come after enough of them. -/
structure MissesRecorded (s : Inbox) : Prop where
  attempts : ∀ r ∈ s.orphans, r.reconcileAttempts ≤ misses s.log r.id
  deletions : Recorded s.log

section
variable {s s' : Inbox} {u : Option Nat} {A : Allowed} {l : List Obs}

theorem MissesRecorded.append (h : MissesRecorded s) (hlog : s'.log = s.log ++ l)
    (hor : ∀ r ∈ s'.orphans, r ∈ s.orphans) (hl : ∀ t p cap, .deleted t p cap ∉ l) :
    MissesRecorded s' := by
  refine ⟨fun r hr => ?_, hlog ▸ h.deletions.append hl⟩
  rw [hlog, misses_append]
  exact Nat.le_trans (h.attempts r (hor r hr)) (Nat.le_add_right _ _)

/-- Every change keeps the misses of a row recorded. -/
theorem MissesRecorded.change (h : MissesRecorded s) (hc : Change A s u s') :
    MissesRecorded s' := by
  have one : ∀ {o : Obs}, (∀ t p cap, o ≠ .deleted t p cap) → ∀ t p cap, .deleted t p cap ∉ [o] :=
    fun ho t p cap hm => ho t p cap (mem_singleton.1 hm).symm
  cases hc with
  | same => exact h
  | listed | matched | agedOut | suppressed | retired =>
    exact h.append rfl (fun _ hr => hr) (one nofun)
  | promoted x => exact h.append rfl (fun _ hr => mem_remove_orphans _ hr) (one nofun)
  | orphaned _ done =>
    obtain ⟨born, orphans, -, hor, rfl⟩ := toOrphan_eq done
    refine ⟨fun r hr => ?_, h.deletions.append (one nofun)⟩
    rcases ((insert?_some hor).2 r).1 hr with hr | rfl
    · show r.reconcileAttempts ≤ misses (s.log ++ _) r.id
      rw [misses_append]
      exact Nat.le_trans (h.attempts r hr) (Nat.le_add_right _ _)
    · exact Nat.zero_le _
  | missed t id =>
    refine ⟨fun r hr => ?_, h.deletions.append (one nofun)⟩
    show r.reconcileAttempts ≤ misses (s.log ++ _) r.id
    rw [misses_append]
    rcases mem_countMiss.1 hr with ⟨hr, -⟩ | ⟨r0, hr0, hid, rfl⟩
    · exact Nat.le_trans (h.attempts r hr) (Nat.le_add_right _ _)
    · -- the row was there, so the miss is recorded
      have hrec : s.orphans.rows.any (·.id = id) = true :=
        any_eq_true.2 ⟨r0, hr0, decide_eq_true hid⟩
      have hone : misses [.missed t id (s.orphans.rows.any (·.id = id))] r0.id = 1 := by
        rw [hrec]
        simp [misses, hid]
      rw [hone]
      exact Nat.add_le_add_right (h.attempts r0 hr0) 1
  | deleted t id cap =>
    rcases deleteMissed_eq s t id cap with heq | ⟨r0, hr0, -, hcap, heq⟩
    · rwa [heq]
    · rw [heq]
      refine ⟨fun r hr => ?_, h.deletions.snoc fun t' p cap' ho => ?_⟩
      · show r.reconcileAttempts ≤ misses (s.log ++ _) r.id
        rw [misses_append]
        exact Nat.le_trans (h.attempts r (mem_delete.1 hr).1) (Nat.le_add_right _ _)
      · cases ho
        exact Nat.le_trans hcap (h.attempts r0 hr0)
  | stored done =>
    rcases insertStaging_eq done with ⟨-, rfl⟩ | ⟨staging, born, -, -, rfl⟩
    · exact h.append rfl (fun _ hr => hr) (one nofun)
    · exact h.append rfl (fun _ hr => hr) (one nofun)
  | passed _ done =>
    obtain ⟨cfg, row, stage, -, rfl⟩ := pass_eq done
    exact h.append rfl (fun _ hr => hr) fun t p cap hm => absurd (run_of_mem_passObs hm) nofun
  | _ => exact ⟨h.attempts, h.deletions⟩

end

/-! ## Every run -/

/-- A receipt is held in one of the two tables, is an event of the request its reference was matched
with, or had a copy deleted after enough recorded misses. -/
def Conserved (s : Inbox) (k : String × String × String × Time) : Prop :=
  (∃ r ∈ s.staging, r.key = k) ∨ (∃ r ∈ s.orphans, r.key = k) ∨
  (∃ t p m, Obs.matched t p (some m) ∈ s.log ∧ p.key = k ∧
    ∃ e ∈ s.db.commsEvent, e.commsRequestId = m.commsRequestId ∧ e.occurredAt = p.occurredAt ∧
      e.eventType.text = p.eventType ∧ e.providerRef = p.providerRef) ∨
  ∃ pre t p cap, pre ++ [Obs.deleted t p cap] <+: s.log ∧ p.key = k ∧ cap ≤ misses pre p.id

section
variable {s : Inbox} {p : PendingReceipt}

/-- What was promoted is an event of the request it was matched with. -/
theorem Conserved.of_promoted (hs : Sound s) {x : Promotion} (hx : .promoted x ∈ s.log)
    (hp : x.receipt.toPendingReceipt = p) : Conserved s p.key := by
  subst hp
  obtain ⟨⟨-, hm⟩, e, he, hkey⟩ := hs.log _ hx
  simp only [CommsEvent.key, Promotion.eventKey, Prod.mk.injEq] at hkey
  obtain ⟨h1, h2, h3, h4⟩ := hkey
  exact .inr (.inr (.inl ⟨x.run, _, x.matched, hm, rfl, e, he, h2, h1,
    by rw [h3]; exact x.receipt.named, h4⟩))

theorem Conserved.of_orphan (hs : Sound s) (ha : AllAccounted s) (hr : MissesRecorded s)
    (hp : ⟨.orphan, p⟩ ∈ s.born) : Conserved s p.key := by
  rcases ha _ hp with ⟨x, hx, -, hxp⟩ | ⟨r, hr, hrp⟩ | ⟨t, cap, hd⟩
  · exact .of_promoted hs hx hxp
  · exact .inr (.inl ⟨r, hr, by rw [hrp]⟩)
  · obtain ⟨pre, post, hlog⟩ := append_of_mem hd
    have hpre : pre ++ [.deleted t p cap] <+: s.log := ⟨post, by rw [hlog, append_assoc]; rfl⟩
    exact .inr (.inr (.inr ⟨pre, t, p, cap, hpre, rfl, hr.deletions pre t p cap hpre⟩))

theorem Conserved.of_accepted (hs : Sound s) (ha : AllAccounted s) (hr : MissesRecorded s)
    (hp : .accepted p ∈ s.log) : Conserved s p.key := by
  obtain ⟨q, hq, hkey⟩ := hs.log _ hp
  rw [← hkey]
  rcases ha _ hq with ⟨x, hx, -, hxp⟩ | ⟨r, hr, hrp⟩ | ⟨t, ho⟩
  · exact .of_promoted hs hx hxp
  · exact .inl ⟨r, hr, by rw [hrp]⟩
  · obtain ⟨-, q', hq', hkey'⟩ := hs.log _ ho
    rw [← hkey']
    exact .of_orphan hs ha hr hq'

end

section
variable [Aes256Gcm] {w : World} {db : TenantDb} {partitions : List (Time × Time)}
variable {D : World → Act → Prop}

theorem accounted_of_run {as : List Act}
    (h : Run.Steps system.step D ⟨.start db partitions, []⟩ as w) : AllAccounted w.shared :=
  invariant_of_run (fun _ hc _ hs hi => hi.change hc hs)
    (fun hi c hc => (hi c hc).of_rows (grew_note _ _) (fun _ hr => hr) fun r hr => ⟨r, hr, rfl⟩) h
    fun c hc => absurd hc (not_mem_empty c)

theorem recorded_of_run {as : List Act}
    (h : Run.Steps system.step D ⟨.start db partitions, []⟩ as w) : MissesRecorded w.shared := by
  refine invariant_of_run (fun _ hc _ _ hi => hi.change hc) (fun hi => hi.append rfl
    (fun _ hr => hr) fun t p cap hm => ?_) h ⟨fun r hr => absurd hr (not_mem_empty r),
      fun pre t p cap hpre => ?_⟩
  · cases mem_singleton.1 hm
  · have := prefix_nil.1 hpre
    simp at this

/-- In every run, with statements that fail at any point, every receipt that the webhook accepted is
in `webhook_receipt_staging`, in `orphan_event` or an event of the request its reference was matched
with, unless a copy of it was deleted after at least as many recorded misses as the cap of the
deleting run. No request has two events of one time, type and reference. -/
theorem receipts_conserved (db : TenantDb) (partitions : List (Time × Time))
    {as : List Act} {w : World}
    (h : Run.Steps system.step Run.Any ⟨.start db partitions, []⟩ as w) :
    (∀ p, .accepted p ∈ w.shared.log → Conserved w.shared p.key) ∧
    ∀ e ∈ w.shared.db.commsEvent, ∀ e' ∈ w.shared.db.commsEvent,
      e.commsRequestId = e'.commsRequestId → e.occurredAt = e'.occurredAt →
      e.eventType = e'.eventType → e.providerRef = e'.providerRef → e = e' := by
  refine ⟨fun p hp => .of_accepted (sound_of_run h) (accounted_of_run h) (recorded_of_run h) hp, ?_⟩
  intro e he e' he' h1 h2 h3 h4
  exact Table.eq_of_key he he' (by simp only [CommsEvent.key, h1, h2, h3, h4])

end

/-! ### Runs on fixed inputs -/

/-- A delivered receipt is stored and promoted. -/
def deliveredThenPromoted : List Act :=
  [.env (.deliver (.sample 10 .delivered 5)), .start .webhookPromote,
   .step 0 { staging := [.sample 10 .delivered 5] }, .step 0 {}, .step 0 {}, .step 0 {},
   .step 0 { now := 7 }]

/-- It is conserved. -/
theorem receipts_conserved_deliveredThenPromoted :
    ∃ w, Run.Steps (@system .sample).step Run.Any sampleWorld deliveredThenPromoted w ∧
      .accepted (.sample 10 .delivered 5) ∈ w.shared.log ∧
      Conserved w.shared (PendingReceipt.sample 10 .delivered 5).key := by
  obtain ⟨w, hw, hp⟩ := Run.Steps.exists_of_exec (@system .sample).step sampleWorld
    deliveredThenPromoted
    (fun w => .accepted (.sample 10 .delivered 5) ∈ w.shared.log && w.shared.staging.rows.isEmpty)
    (by decide +kernel)
  simp only [Bool.and_eq_true, decide_eq_true_eq] at hp
  exact ⟨w, hw, hp.1, (@receipts_conserved .sample _ _ _ _ hw).1 _ hp.1⟩

end Messgr.Receipts
