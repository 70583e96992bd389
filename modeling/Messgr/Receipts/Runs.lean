import Messgr.Receipts.Rules

/-!
# What runs of the receipt jobs leave behind

The programs of the jobs are followed statement by statement. `Track` says which of its rows a run
has handled and which deletions it has reported, `Stopped` what it has observed when a statement
failed, and `Post` how it ends. Two conditions are parameters of the walk: that a statement fails
for the last row of a list only (`StopsLast`), and that no run fails between a deletion and its
report (`ReportsDeletions`). `holds_of_run` lifts the walk to every run of the system.
-/

namespace Messgr.Receipts

open List Option

/-! ## What a run observes -/

/-- An observation that a row was promoted, handed over or counted as a miss. -/
def Obs.handles (id : Uuid) : Obs → Bool
  | .promoted x => x.receipt.id = id
  | .orphaned _ p => p.id = id
  | .missed _ id' _ => id' = id
  | _ => false

/-- The warning that a row has aged out. -/
def Obs.isAgedOut : Obs → Bool
  | .agedOut _ _ => true
  | _ => false

/-- Not the list of a run, nor a deletion, nor a warning. -/
def Obs.quiet : Obs → Bool
  | .listed _ _ | .deleted _ _ _ | .agedOut _ _ => false
  | _ => true

/-- A statement about a row that neither deletes it nor warns of that. -/
def Stmt.quiet : Stmt → Bool
  | .listStaging | .listOrphans | .deleteMissed _ _ | .warn _ => false
  | _ => true

/-- The log of one state is that of another with observations of the kind `p` behind it. -/
def Logs (p : Obs → Bool) (s s' : Inbox) : Prop :=
  ∃ l, s'.log = s.log ++ l ∧ ∀ o ∈ l, p o = true

section
variable {s s' s1 : Inbox} {t : Nat} {id : Uuid} {reply : Reply} {p : Obs → Bool}

theorem logs_refl (p : Obs → Bool) (s : Inbox) : Logs p s s :=
  ⟨[], (append_nil _).symm, fun _ h => absurd h not_mem_nil⟩

theorem Logs.note (h : Logs p s s1) {o : Obs} (ho : p o = true) : Logs p s (s1.note o) := by
  obtain ⟨l, hl, hp⟩ := h
  refine ⟨l ++ [o], by rw [Inbox.note, hl, append_assoc], fun o' ho' => ?_⟩
  rcases mem_append.1 ho' with ho' | ho'
  · exact hp o' ho'
  · rwa [mem_singleton.1 ho']

theorem logs_snoc {o : Obs} (h : s'.log = s.log ++ [o]) (ho : p o = true) : Logs p s s' :=
  ⟨[o], h, fun o' ho' => by rwa [mem_singleton.1 ho']⟩

theorem logs_write {a : Except JobError Unit} (h : Logs p s s1)
    (hp : p (.failed t id) = true) (hx : s.write s1 t id reply = (s', a)) : Logs p s s' := by
  cases reply with
  | ok => cases hx; exact h
  | failed => cases hx; exact (logs_refl p s).note hp
  | lost => cases hx; exact h.note hp

theorem write_ok {b : Unit} (hx : s.write s1 t id reply = (s', .ok b)) : reply = .ok ∧ s' = s1 := by
  cases reply with
  | ok => cases hx; exact ⟨rfl, rfl⟩
  | failed => cases hx
  | lost => cases hx

theorem write_error {err : JobError} (hx : s.write s1 t id reply = (s', .error err)) :
    reply ≠ .ok ∧ .failed t id ∈ s'.log := by
  cases reply with
  | ok => cases hx
  | failed | lost => cases hx; exact ⟨Reply.noConfusion, mem_append_right _ (.head _)⟩

theorem mem_log_fail (s : Inbox) (t : Nat) (id : Uuid) :
    .failed t id ∈ (s.note (.failed t id)).log :=
  mem_append_right _ (.head _)

end

section
variable [Aes256Gcm]

/-- A statement answers with an error. -/
def Stmt.fails (e : Event) (s : Inbox) : Stmt → Bool
  | .listStaging | .listOrphans | .findMatch _ | .toOrphan _ | .deleteMissed _ _ => e.reply ≠ .ok
  | .getOrCreateDek _ _ => !e.dek.isOk
  | .encrypt _ dek aad plaintext => !(Messgr.encrypt e.nonce dek aad plaintext).isOk
  | .promote _ x _ _ => e.reply ≠ .ok || !s.covers x.occurredAt
  | .countMiss row => e.reply ≠ .ok || s.overflows row.id
  | .warn _ => false

variable {s s' s1 : Inbox} {t : Nat} {e : Event} {c : Stmt} {id : Uuid}

/-- An error about a row is a failure, and is noted. -/
theorem exec_error {err : JobError} (hid : c.row = some id)
    (hx : exec t s c e = some (s', .error err)) : c.fails e s = true ∧ .failed t id ∈ s'.log := by
  cases c with
  | listStaging => cases hid
  | listOrphans => cases hid
  | findMatch p =>
    cases hid
    simp only [exec] at hx
    split at hx
    · cases hx
    · next hr => cases hx; exact ⟨by simpa [Stmt.fails] using hr, mem_log_fail _ _ _⟩
  | getOrCreateDek | encrypt =>
    cases hid
    simp only [exec] at hx
    split at hx
    · cases hx
    · next hd =>
      cases hx
      exact ⟨by simp [Stmt.fails, hd, Except.isOk, Except.toBool], mem_log_fail _ _ _⟩
  | promote held x m ciphertext =>
    cases hid
    simp only [exec] at hx
    split at hx
    · obtain ⟨hr, hl⟩ := write_error (Option.some.inj hx)
      exact ⟨by simp [Stmt.fails, hr], hl⟩
    · next hcov => cases hx; exact ⟨by simp [Stmt.fails, hcov], mem_log_fail _ _ _⟩
  | toOrphan row =>
    cases hid
    obtain ⟨s1, -, hw⟩ := map_eq_some_iff.1 hx
    obtain ⟨hr, hl⟩ := write_error hw
    exact ⟨by simp [Stmt.fails, hr], hl⟩
  | countMiss row =>
    cases hid
    simp only [exec] at hx
    split at hx
    · next hov => cases hx; exact ⟨by simp [Stmt.fails, hov], mem_log_fail _ _ _⟩
    · obtain ⟨hr, hl⟩ := write_error (Option.some.inj hx)
      exact ⟨by simp [Stmt.fails, hr], hl⟩
  | deleteMissed row cap =>
    cases hid
    obtain ⟨hr, hl⟩ := write_error (Option.some.inj hx)
    exact ⟨by simp [Stmt.fails, hr], hl⟩
  | warn row => cases hx

/-- What a quiet statement logs is quiet. -/
theorem exec_quiet {a : Except JobError c.Answer} (hq : c.quiet = true)
    (hx : exec t s c e = some (s', a)) : Logs Obs.quiet s s' := by
  cases c with
  | listStaging | listOrphans | deleteMissed | warn => cases hq
  | findMatch p =>
    simp only [exec] at hx
    split at hx <;> cases hx <;> exact logs_snoc rfl rfl
  | getOrCreateDek | encrypt =>
    simp only [exec] at hx
    split at hx <;> cases hx
    · exact logs_refl _ _
    · exact logs_snoc rfl rfl
  | promote held x m ciphertext =>
    simp only [exec] at hx
    split at hx
    · exact logs_write (logs_snoc rfl rfl) rfl (Option.some.inj hx)
    · cases hx; exact logs_snoc rfl rfl
  | toOrphan row =>
    obtain ⟨s1, h1, hw⟩ := map_eq_some_iff.1 hx
    obtain ⟨born, orphans, -, -, rfl⟩ := toOrphan_eq h1
    exact logs_write (logs_snoc rfl rfl) rfl hw
  | countMiss row =>
    simp only [exec] at hx
    split at hx
    · cases hx; exact logs_snoc rfl rfl
    · exact logs_write (logs_snoc rfl rfl) rfl (Option.some.inj hx)

/-- A promotion, a hand-over or a miss that is counted is an observation of its row. -/
def Stmt.handles : Stmt → Bool
  | .promote _ _ _ _ | .toOrphan _ | .countMiss _ => true
  | _ => false

/-- A statement that handles its row notes it. -/
theorem exec_handles {b : c.Answer} (hid : c.row = some id) (hc : c.handles = true)
    (hx : exec t s c e = some (s', .ok b)) :
    ∃ o ∈ s'.log, o.run = some t ∧ o.handles id = true := by
  cases c with
  | promote held x m ciphertext =>
    cases hid
    simp only [exec] at hx
    split at hx
    · obtain ⟨-, rfl⟩ := write_ok (Option.some.inj hx)
      exact ⟨_, mem_append_right _ (.head _), rfl, decide_eq_true rfl⟩
    · cases hx
  | toOrphan row =>
    cases hid
    obtain ⟨s1, h1, hw⟩ := map_eq_some_iff.1 hx
    obtain ⟨-, rfl⟩ := write_ok hw
    obtain ⟨-, -, -, -, rfl⟩ := toOrphan_eq h1
    exact ⟨_, mem_append_right _ (.head _), rfl, decide_eq_true rfl⟩
  | countMiss row =>
    cases hid
    simp only [exec] at hx
    split at hx
    · cases hx
    · obtain ⟨-, rfl⟩ := write_ok (Option.some.inj hx)
      exact ⟨_, mem_append_right _ (.head _), rfl, decide_eq_true rfl⟩
  | _ => cases hc

end

/-! ## The rows a run has handled -/

/-- What a run has observed that has handled `done` of its rows and has `rest` before it, and has
warned `n` times; when deletions are reported (`F`), of every row it has deleted. -/
structure Track (F : Prop) (t : Nat) (done rest : List Uuid) (n : Nat) (s : Inbox) : Prop where
  nodup : (done ++ rest).Nodup
  listed : ∀ ids, .listed t ids ∈ s.own t → ids = done ++ rest
  handled : ∀ id ∈ done, ∃ o ∈ s.own t, o.handles id = true
  aged : (s.own t).countP Obs.isAgedOut = n
  reported : F → ∀ p cap, .deleted t p cap ∈ s.own t → .agedOut t p.id ∈ s.own t

section
variable {s s' : Inbox} {t : Nat} {id : Uuid} {F : Prop} {done rest : List Uuid} {n : Nat}

theorem Track.of_own (h : Track F t done rest n s) (ho : s'.own t = s.own t) :
    Track F t done rest n s' := by
  constructor
  · exact h.nodup
  all_goals rw [ho]
  · exact h.listed
  · exact h.handled
  · exact h.aged
  · exact h.reported

/-- Quiet observations change nothing. -/
theorem Track.quiet {l : List Obs} (h : Track F t done rest n s) (ho : s'.own t = s.own t ++ l)
    (hq : ∀ o ∈ l, o.quiet = true) : Track F t done rest n s' := by
  have hmem : ∀ {o}, o.quiet = false → o ∈ s'.own t → o ∈ s.own t := by
    intro o hoq hmem
    rw [ho] at hmem
    refine (mem_append.1 hmem).resolve_right fun hl => ?_
    rw [hq o hl] at hoq
    cases hoq
  have hsub : ∀ {o}, o ∈ s.own t → o ∈ s'.own t := fun hm => ho ▸ mem_append_left l hm
  refine ⟨h.nodup, fun ids hids => h.listed ids (hmem rfl hids), fun id hid => ?_, ?_,
    fun hF p cap hd => hsub (h.reported hF p cap (hmem rfl hd))⟩
  · obtain ⟨o, hm, hh⟩ := h.handled id hid
    exact ⟨o, hsub hm, hh⟩
  · have hzero : l.countP Obs.isAgedOut = 0 := by
      refine countP_eq_zero.2 fun o hl haged => ?_
      have hquiet := hq o hl
      cases o <;> simp [Obs.isAgedOut, Obs.quiet] at haged hquiet
    rw [ho, countP_append, hzero, Nat.add_zero, h.aged]

/-- The next row, once one is handled. -/
theorem Track.next (h : Track F t done (id :: rest) n s)
    (hh : ∃ o ∈ s.own t, o.handles id = true) : Track F t (done ++ [id]) rest n s := by
  refine ⟨by simpa using h.nodup, fun ids hids => by simpa using h.listed ids hids, ?_, h.aged,
    h.reported⟩
  intro id' hid'
  rcases mem_append.1 hid' with hid' | hid'
  · exact h.handled id' hid'
  · rw [mem_singleton.1 hid']
    exact hh

/-- A run that has just listed its rows. -/
theorem track_listed {ids : List Uuid} (hn : ids.Nodup) (ho : s.own t = [])
    (hs : s'.own t = s.own t ++ [.listed t ids]) : Track F t [] ids 0 s' := by
  rw [ho, nil_append] at hs
  refine ⟨hn, fun ids' hids => ?_, fun _ h => absurd h not_mem_nil, by rw [hs]; rfl,
    fun _ p cap hd => ?_⟩
  · rw [hs] at hids
    cases mem_singleton.1 hids
    rfl
  · rw [hs] at hd
    cases mem_singleton.1 hd

/-- A run that stopped at the last row of its list has no row behind it. -/
theorem eq_nil_of_getLast? (hn : (done ++ id :: rest).Nodup)
    (h : (done ++ id :: rest).getLast? = some id) : rest = [] := by
  cases rest with
  | nil => rfl
  | cons x xs =>
    rw [getLast?_append, getLast?_cons_cons, getLast?_eq_some_getLast (by simp), some_or] at h
    have hnot := (nodup_cons.1 (nodup_append.1 hn).2.1).1
    exact absurd (Option.some.inj h ▸ getLast_mem _) hnot

/-- The deletion of the row at hand, reported or not. -/
theorem Track.deleted {p : PendingReceipt} {cap : Nat} (h : Track F t done rest n s)
    (ho : s'.own t = s.own t ++ [.deleted t p cap]) (hF : ¬ F) : Track F t done rest n s' := by
  refine ⟨h.nodup, fun ids hids => ?_, fun id hid => ?_, ?_, fun hF' => absurd hF' hF⟩
  · rw [ho] at hids
    refine h.listed ids ((mem_append.1 hids).resolve_right fun hm => ?_)
    cases mem_singleton.1 hm
  · obtain ⟨o, hm, hh⟩ := h.handled id hid
    exact ⟨o, ho ▸ mem_append_left _ hm, hh⟩
  · rw [ho, countP_append, h.aged]
    rfl

/-- The warning, which reports the deletion before it. -/
theorem Track.warned {l : List Obs} (h : Track F t done rest n s)
    (hl : ∀ o ∈ l, ∃ p cap, o = .deleted t p cap ∧ p.id = id)
    (ho : s'.own t = s.own t ++ l ++ [.agedOut t id]) : Track F t done rest (n + 1) s' := by
  refine ⟨h.nodup, fun ids hids => ?_, fun id' hid' => ?_, ?_, fun hF p cap hd => ?_⟩
  · rw [ho, append_assoc] at hids
    refine h.listed ids ((mem_append.1 hids).resolve_right fun hm => ?_)
    rcases mem_append.1 hm with hm | hm
    · obtain ⟨p, cap, heq, -⟩ := hl _ hm
      cases heq
    · cases mem_singleton.1 hm
  · obtain ⟨o, hm, hh⟩ := h.handled id' hid'
    exact ⟨o, by rw [ho, append_assoc]; exact mem_append_left _ hm, hh⟩
  · have hzero : l.countP Obs.isAgedOut = 0 := by
      refine countP_eq_zero.2 fun o hm haged => ?_
      obtain ⟨p, cap, rfl, -⟩ := hl o hm
      cases haged
    rw [ho, countP_append, countP_append, h.aged, hzero]
    rfl
  · rw [ho] at hd ⊢
    rcases mem_append.1 hd with hd | hd
    · rcases mem_append.1 hd with hd | hd
      · exact mem_append_left _ (mem_append_left _ (h.reported hF p cap hd))
      · obtain ⟨p', cap', heq, hid⟩ := hl _ hd
        cases heq
        exact mem_append_right _ (by rw [hid]; exact .head _)
    · cases mem_singleton.1 hd

end

/-! ## The walk -/

section
variable [Aes256Gcm]
variable {p : PendingReceipt} {x : Recognized}

/-- A statement about a row fails for the last row of its run's list only. -/
def StopsLast (C : Considered) : Prop :=
  ∀ t i c e s id, C t i c e s → c.fails e s = true → c.row = some id →
    ∃ ids, .listed t ids ∈ s.log ∧ ids.getLast? = some id

/-- Nothing fails in a run that has deleted a row, no reply to a deletion is lost, and a row is
deleted only by a run that listed it one attempt before the cap. -/
def ReportsDeletions (C : Considered) : Prop :=
  ∀ t i c e s, C t i c e s →
    (c.fails e s = true → ∀ p cap, .deleted t p cap ∉ s.log) ∧
    ∀ row cap, c = .deleteMissed row cap → (s.exhausted? row.id cap).isSome →
      e.reply ≠ .lost ∧ (e.reply = .ok → cap ≤ row.reconcileAttempts + 1)

/-- What a run has observed that has stopped with an error. -/
structure Stopped (C : Considered) (t : Nat) (s : Inbox) : Prop where
  last : StopsLast C → ∀ ids, .listed t ids ∈ s.own t → ∀ id ∈ ids,
    (∃ o ∈ s.own t, o.handles id = true) ∨ .failed t id ∈ s.own t
  deleted : ReportsDeletions C → ∀ p cap, .deleted t p cap ∉ s.own t

variable {s s1 s' : Inbox} {t : Nat} {i : Job} {e : Event} {c : Stmt} {id : Uuid} {C : Considered}
  {done rest : List Uuid} {n : Nat}

theorem Stopped.of_own (h : Stopped C t s) (ho : s'.own t = s.own t) : Stopped C t s' := by
  constructor <;> rw [ho]
  · exact h.last
  · exact h.deleted

/-- What a failed statement about a row adds: nothing that matters, or a deletion whose reply was
lost. -/
theorem exec_error_adds {err : JobError} {l : List Obs} (hid : c.row = some id)
    (hx : exec t s c e = some (s', .error err)) (hl : s'.log = s.log ++ l) :
    ∀ o ∈ l, o.quiet = true ∨ ∃ row cap r, c = .deleteMissed row cap ∧ e.reply = .lost ∧
      s.exhausted? row.id cap = some r ∧ o = .deleted t r.toPendingReceipt cap := by
  by_cases hq : c.quiet = true
  · obtain ⟨l', hl', hq'⟩ := exec_quiet hq hx
    obtain rfl : l = l' := append_cancel_left (hl.symm.trans hl')
    exact fun o ho => .inl (hq' o ho)
  have failedOnly : l = [.failed t id] → ∀ o ∈ l, o.quiet = true := by
    rintro rfl o ho
    rw [mem_singleton.1 ho]
    rfl
  cases c with
  | deleteMissed row cap =>
    cases hid
    have hw := Option.some.inj hx
    cases hr : e.reply with
    | ok => rw [hr] at hw; cases hw
    | failed =>
      rw [hr] at hw
      cases hw
      exact fun o ho => .inl (failedOnly (append_cancel_left hl.symm) o ho)
    | lost =>
      rw [hr] at hw
      cases hw
      cases hex : s.exhausted? row.id cap with
      | some r =>
        intro o ho
        simp only [Inbox.deleteMissed, hex, Inbox.note, Inbox.remove, append_assoc] at hl
        rw [append_cancel_left hl.symm] at ho
        rcases mem_cons.1 ho with rfl | ho
        · exact .inr ⟨row, cap, r, rfl, rfl, hex, rfl⟩
        · exact .inl (by rw [mem_singleton.1 ho]; rfl)
      | none =>
        have hsame : s.deleteMissed t row.id cap = s := by rw [Inbox.deleteMissed, hex]
        rw [hsame] at hl
        exact fun o ho => .inl (failedOnly (append_cancel_left hl.symm) o ho)
  | warn row => cases hx
  | listStaging => cases hid
  | listOrphans => cases hid
  | _ => exact absurd rfl hq

/-- The run is tracked, and its deletions where `C` has them reported. -/
abbrev Tracks (C : Considered) := Track (ReportsDeletions C)

/-- A statement about a row that fails stops the run. -/
theorem Track.stopped {err : JobError} (h : Tracks C t done (id :: rest) n s)
    (hid : c.row = some id) (hC : C t i c e s) (hx : exec t s c e = some (s', .error err))
    (ho : ∃ l, s'.log = s.log ++ l ∧ s'.own t = s.own t ++ l) : Stopped C t s' := by
  obtain ⟨hf, hfailed⟩ := exec_error hid hx
  obtain ⟨l, hl, hown⟩ := ho
  have hadds := exec_error_adds hid hx hl
  refine ⟨fun hlast ids hids => ?_, fun hrep p cap hd => ?_⟩
  · obtain ⟨ids0, hmem0, hgl⟩ := hlast t i c e s id hC hf hid
    rw [h.listed ids0 (mem_own.2 ⟨hmem0, rfl⟩)] at hgl
    have hids1 : .listed t ids ∈ s.own t := by
      rw [hown] at hids
      refine (mem_append.1 hids).resolve_right fun hm => ?_
      rcases hadds _ hm with hq | ⟨row, cap, r, -, -, -, heq⟩
      · cases hq
      · cases heq
    intro id' hid'
    rw [h.listed ids hids1, eq_nil_of_getLast? h.nodup hgl] at hid'
    rcases mem_append.1 hid' with hid' | hid'
    · obtain ⟨o, hm, hh⟩ := h.handled id' hid'
      exact .inl ⟨o, hown ▸ mem_append_left l hm, hh⟩
    · rw [mem_singleton.1 hid']
      exact .inr (mem_own.2 ⟨hfailed, rfl⟩)
  · rw [hown] at hd
    rcases mem_append.1 hd with hd | hd
    · exact (hrep t i c e s hC).1 hf p cap (mem_own.1 hd).1
    · rcases hadds _ hd with hq | ⟨row, cap', r, rfl, hr, hex, -⟩
      · cases hq
      · exact ((hrep t i _ e s hC).2 row cap' rfl (by rw [hex]; rfl)).1 hr

variable {α : Type} {Q : Except JobError α → Inbox → Prop}

theorem exec_findMatch {m : Option Match} (hx : exec t s (.findMatch p) e = some (s', .ok m)) :
    .matched t p m ∈ s'.log := by
  simp only [exec] at hx
  split at hx
  · cases hx
    exact mem_append_right _ (.head _)
  · cases hx

section
variable (hQ : ∀ err s, Stopped C t s → Q (.error err) s)
variable {m : Match}
include hQ

/-- A statement about the row at hand: its failure stops the run. -/
theorem wp_rowStmt {f : c.Answer → Program α}
    (hT : Tracks C t done (id :: rest) n s) (hid : c.row = some id) (hk : Known t s c)
    (hok : ∀ s1 e s2 b, Others t s s1 → C t i c e s1 → exec t s1 c e = some (s2, .ok b) →
      Grew s s2 → (∃ l, s2.log = s1.log ++ l ∧ s2.own t = s.own t ++ l) →
      Wp C t i Q (f b) s2) : Wp C t i Q (.call c f) s := by
  refine wp_call hk fun s1 e s2 a ho hs hc hx => ?_
  obtain ⟨-, -, hg, l, hl, hown⟩ := exec_keeps (hk.grew ho.toGrew) hs hx
  cases a with
  | ok b => exact hok s1 e s2 b ho hc hx (ho.toGrew.trans hg) ⟨l, hl, ho.own ▸ hown⟩
  | error err =>
    exact fun s3 h3 =>
      hQ err s3 (((hT.of_own ho.own).stopped hid hc hx ⟨l, hl, hown⟩).of_own h3.own)

/-- A quiet one. -/
theorem wp_quietStmt {f : c.Answer → Program α}
    (hT : Tracks C t done (id :: rest) n s) (hid : c.row = some id)
    (hq : c.quiet = true) (hk : Known t s c)
    (hok : ∀ s1 e s2 b, exec t s1 c e = some (s2, .ok b) → Grew s s2 →
      Tracks C t done (id :: rest) n s2 → Wp C t i Q (f b) s2) : Wp C t i Q (.call c f) s := by
  refine wp_rowStmt hQ hT hid hk fun s1 e s2 b ho _ hx hg ⟨l, hl, hown⟩ => ?_
  obtain ⟨l', hl', hq'⟩ := exec_quiet hq hx
  obtain rfl : l = l' := append_cancel_left (hl.symm.trans hl')
  exact hok s1 e s2 b hx hg (hT.quiet hown hq')

/-- One that handles the row. -/
theorem wp_handleStmt {f : c.Answer → Program α}
    (hT : Tracks C t done (id :: rest) n s) (hid : c.row = some id)
    (hq : c.quiet = true) (hh : c.handles = true) (hk : Known t s c)
    (hok : ∀ s2 b, Grew s s2 → Tracks C t (done ++ [id]) rest n s2 → Wp C t i Q (f b) s2) :
    Wp C t i Q (.call c f) s := by
  refine wp_quietStmt hQ hT hid hq hk fun s1 e s2 b hx hg hT2 => hok s2 b hg (hT2.next ?_)
  obtain ⟨o, ho, hrun, hh⟩ := exec_handles hid hh hx
  exact ⟨o, mem_own.2 ⟨ho, hrun⟩, hh⟩

/-- A look-up tracks on, and notes its match. -/
theorem wp_lookUp {f : Option (Recognized × Match) → Program α}
    (hT : Tracks C t done (p.id :: rest) n s)
    (hnone : ∀ s', Grew s s' → Tracks C t done (p.id :: rest) n s' → Wp C t i Q (f none) s')
    (hsome : ∀ x m s', Grew s s' → Tracks C t done (p.id :: rest) n s' →
      x.toPendingReceipt = p → .matched t p (some m) ∈ s'.log →
      Wp C t i Q (f (some (x, m))) s') : Wp C t i Q (lookUp p >>= f) s := by
  unfold lookUp
  split
  · next x hx =>
    refine wp_quietStmt (c := .findMatch p) hQ hT rfl rfl trivial fun s1 e s2 b hex hg hT2 => ?_
    have hm := exec_findMatch hex
    cases b with
    | none => exact hnone s2 hg hT2
    | some m => exact hsome x m s2 hg hT2 (recognized?_some hx) hm
  · exact hnone s (.refl s) hT

theorem wp_sealPayload (plaintext : Bytes) {f : Bytes → Program α}
    (hT : Tracks C t done (p.id :: rest) n s)
    (hok : ∀ s' b, Grew s s' → Tracks C t done (p.id :: rest) n s' →
      Wp C t i Q (f b) s') : Wp C t i Q (sealPayload p m plaintext >>= f) s := by
  refine wp_quietStmt (c := .getOrCreateDek p m.customerId) hQ hT rfl rfl trivial
    fun _ _ s1 dek _ hg1 hT1 => ?_
  refine wp_quietStmt (c := .encrypt p dek m.commsRequestId.asBytes plaintext) hQ hT1 rfl rfl
    trivial fun _ _ s2 b _ hg2 hT2 => ?_
  exact hok s2 b (hg1.trans hg2) hT2

/-- The promotion of a row of either table. -/
theorem wp_promote {held : Holding} {ciphertext : Option Bytes} {f : Unit → Program α}
    (hT : Tracks C t done (x.id :: rest) n s)
    (hb : ⟨held, x.toPendingReceipt⟩ ∈ s.born) (hm : .matched t x.toPendingReceipt (some m) ∈ s.log)
    (hok : ∀ s', Grew s s' → Tracks C t (done ++ [x.id]) rest n s' → Wp C t i Q (f ()) s') :
    Wp C t i Q (Prog.stmt (Stmt.promote held x m ciphertext) >>= f) s :=
  wp_handleStmt (c := .promote held x m ciphertext) hQ hT rfl rfl rfl ⟨hb, hm⟩
    fun s' _ hg hT' => hok s' hg hT'

/-- The promotion of a row whose payload is sealed. -/
theorem wp_sealAndPromote {held : Holding} {f : Unit → Program α} (plaintext : Bytes)
    (hT : Tracks C t done (p.id :: rest) n s) (hx : x.toPendingReceipt = p)
    (hb : ⟨held, p⟩ ∈ s.born) (hm : .matched t p (some m) ∈ s.log)
    (hok : ∀ s', Grew s s' → Tracks C t (done ++ [p.id]) rest n s' → Wp C t i Q (f ()) s') :
    Wp C t i Q (sealPayload p m plaintext >>= fun b =>
      Prog.stmt (Stmt.promote held x m (some b)) >>= f) s := by
  subst hx
  refine wp_sealPayload hQ plaintext hT fun s1 b hg1 hT1 => ?_
  exact wp_promote hQ hT1 (hg1.born _ hb) (hg1.log _ hm) fun s2 hg2 hT2 =>
    hok s2 (hg1.trans hg2) hT2

theorem wp_promoteOrphan {row : OrphanRow} {f : Unit → Program α}
    (hT : Tracks C t done (row.id :: rest) n s)
    (hx : x.toPendingReceipt = row.toPendingReceipt) (hb : ⟨.orphan, row.toPendingReceipt⟩ ∈ s.born)
    (hm : .matched t row.toPendingReceipt (some m) ∈ s.log)
    (hok : ∀ s', Grew s s' → Tracks C t (done ++ [row.id]) rest n s' →
      Wp C t i Q (f ()) s') : Wp C t i Q (promoteOrphan row x m >>= f) s := by
  unfold promoteOrphan
  split
  · exact wp_sealAndPromote hQ _ hT hx hb hm hok
  · rw [← hx] at hb hm hT hok
    exact wp_promote hQ hT hb hm hok

/-- A miss: the row is handled, and may have been deleted. When deletions are reported, it was
listed one attempt before the cap. -/
theorem wp_recordMiss {row : OrphanRow} {cap : Nat} {f : Unit → Program α}
    (hT : Tracks C t done (row.id :: rest) n s)
    (hkept : ∀ s', Grew s s' → Tracks C t (done ++ [row.id]) rest n s' → Wp C t i Q (f ()) s')
    (hdeleted : ∀ s1 s' p, Grew s s' → Tracks C t (done ++ [row.id]) rest n s1 →
      s'.own t = s1.own t ++ [.deleted t p cap] → p.id = row.id →
      (ReportsDeletions C → cap ≤ row.reconcileAttempts + 1) → Wp C t i Q (f ()) s') :
    Wp C t i Q (recordMiss row cap >>= f) s := by
  refine wp_quietStmt (c := .countMiss row) hQ hT rfl rfl trivial fun s0 e s1 _ hx1 hg1 hT1 => ?_
  refine wp_rowStmt (c := .deleteMissed row cap) hQ hT1 rfl trivial
    fun s2 e2 s3 b ho hC hx hg2 ⟨l, hl, hown⟩ => ?_
  have hh : ∃ o ∈ s1.own t, o.handles row.id = true := by
    obtain ⟨o, ho, hrun, hh⟩ := exec_handles rfl rfl hx1
    exact ⟨o, mem_own.2 ⟨ho, hrun⟩, hh⟩
  obtain ⟨hr, rfl⟩ := write_ok (Option.some.inj hx)
  cases hex : s2.exhausted? row.id cap with
  | none =>
    have hsame : s2.deleteMissed t row.id cap = s2 := by rw [Inbox.deleteMissed, hex]
    obtain rfl : l = [] := by
      rw [hsame] at hl
      exact append_cancel_left (hl.symm.trans (append_nil _).symm)
    rw [append_nil] at hown
    exact hkept _ (hg1.trans hg2) ((hT1.next hh).of_own hown)
  | some r =>
    have hid : r.id = row.id := by
      have := List.find?_some hex
      simp only [Bool.and_eq_true, decide_eq_true_eq] at this
      exact this.1
    obtain rfl : l = [.deleted t r.toPendingReceipt cap] := by
      simp only [Inbox.deleteMissed, hex, Inbox.note, Inbox.remove] at hl
      exact append_cancel_left hl.symm
    exact hdeleted s1 _ _ (hg1.trans hg2) (hT1.next hh) hown hid fun hrep =>
      ((hrep t i _ e2 s2 hC).2 row cap rfl (by rw [hex]; rfl)).2 hr

end

/-- The warning that the row at hand has aged out. -/
theorem wp_warn {row : OrphanRow} {l : List Obs} {f : Unit → Program α}
    (hT : Tracks C t done rest n s1) (hown : s.own t = s1.own t ++ l)
    (hl : ∀ o ∈ l, ∃ p cap, o = .deleted t p cap ∧ p.id = row.id)
    (hok : ∀ s', Grew s s' → Tracks C t done rest (n + 1) s' → Wp C t i Q (f ()) s') :
    Wp C t i Q (Prog.stmt (Stmt.warn row) >>= f) s := by
  refine wp_call (c := .warn row) trivial fun s2 e s3 a ho _ _ hx => ?_
  cases hx
  refine hok _ (ho.toGrew.trans (grew_note _ _)) (hT.warned hl ?_)
  rw [own_append (s := s2) rfl (by simp [Obs.run]), ho.own, hown]

/-- How a run, or its loop, ends: all rows handled and the warnings counted, or stopped. -/
def Post (C : Considered) (t : Nat) (aged : α → Nat) : Except JobError α → Inbox → Prop
  | .ok report, s => ∃ done, Track (ReportsDeletions C) t done [] (aged report) s
  | .error _, s => Stopped C t s

/-- The loop of `webhook-promote`. -/
theorem wp_promoteAll {rows : List StagingRow} {report : PromoteReport}
    (hT : Tracks C t done (rows.map (·.id)) 0 s)
    (hb : ∀ r ∈ rows, ⟨.staging, r.toPendingReceipt⟩ ∈ s.born) :
    Wp C t i (Post C t fun _ => 0) (promoteAll report rows) s := by
  induction rows generalizing report done s with
  | nil => exact fun s' ho => ⟨done, hT.of_own ho.own⟩
  | cons row rows ih =>
    obtain ⟨hrow, hrows⟩ := forall_mem_cons.1 hb
    have hQ : ∀ err s, Stopped C t s → Post C t (fun _ : PromoteReport => 0) (.error err) s :=
      fun _ _ h => h
    refine wp_lookUp (p := row.toPendingReceipt) hQ hT (fun s1 hg1 hT1 => ?_)
      fun x m s1 hg1 hT1 hx hm => ?_
    · refine wp_handleStmt (c := .toOrphan row) hQ hT1 rfl rfl rfl (hg1.born _ hrow)
        fun s2 _ hg2 hT2 => ?_
      exact ih hT2 fun r hr => hg2.born _ (hg1.born _ (hrows r hr))
    · refine wp_sealAndPromote hQ _ hT1 hx (hg1.born _ hrow) hm fun s2 hg2 hT2 => ?_
      exact ih hT2 fun r hr => hg2.born _ (hg1.born _ (hrows r hr))

/-- The loop of `orphan-reconcile`. -/
theorem wp_reconcileAll {cap : Nat} {rows : List OrphanRow} {report : ReconcileReport}
    (hT : Tracks C t done (rows.map (·.id)) report.agedOut s)
    (hb : ∀ r ∈ rows, ⟨.orphan, r.toPendingReceipt⟩ ∈ s.born) :
    Wp C t i (Post C t ReconcileReport.agedOut) (reconcileAll cap report rows) s := by
  induction rows generalizing report done s with
  | nil => exact fun s' ho => ⟨done, hT.of_own ho.own⟩
  | cons row rows ih =>
    obtain ⟨hrow, hrows⟩ := forall_mem_cons.1 hb
    have hQ : ∀ err s, Stopped C t s → Post C t ReconcileReport.agedOut (.error err) s :=
      fun _ _ h => h
    refine wp_lookUp (p := row.toPendingReceipt) hQ hT (fun s1 hg1 hT1 => ?_)
      fun x m s1 hg1 hT1 hx hm => ?_
    · dsimp only
      split
      · -- the row as it was listed has aged out: the warning follows, deleted or not
        refine wp_recordMiss hQ hT1 (fun s2 hg2 hT2 => ?_) fun s2 s3 p hg2 hT2 hown hid _ => ?_
        · refine wp_warn hT2 (append_nil _).symm (fun _ h => absurd h not_mem_nil)
            fun s3 hg3 hT3 => ?_
          exact ih hT3 fun r hr => hg3.born _ (hg2.born _ (hg1.born _ (hrows r hr)))
        · refine wp_warn hT2 hown (fun o ho => ⟨p, cap, mem_singleton.1 ho, hid⟩)
            fun s4 hg4 hT4 => ?_
          exact ih hT4 fun r hr => hg4.born _ (hg2.born _ (hg1.born _ (hrows r hr)))
      · next hnot =>
        refine wp_recordMiss hQ hT1 (fun s2 hg2 hT2 => ?_) fun s2 s3 p hg2 hT2 hown hid hcap => ?_
        · exact ih hT2 fun r hr => hg2.born _ (hg1.born _ (hrows r hr))
        · -- a deletion here is one that is not reported
          exact ih (hT2.deleted hown fun hrep => hnot (hcap hrep)) fun r hr =>
            hg2.born _ (hg1.born _ (hrows r hr))
    · refine wp_promoteOrphan hQ hT1 hx (hg1.born _ hrow) hm fun s2 hg2 hT2 => ?_
      exact ih hT2 fun r hr => hg2.born _ (hg1.born _ (hrows r hr))

/-- The number of warnings in the report of a run. -/
def Report.agedOut : Report → Nat
  | .promote _ => 0
  | .reconcile report => report.agedOut

theorem stopped_of_own (ho : s.own t = []) : Stopped C t s := by
  constructor <;> rw [ho]
  · exact fun _ _ h => absurd h not_mem_nil
  · exact fun _ _ _ h => absurd h not_mem_nil

/-- A run is its loop with the report of the loop. -/
theorem wp_report {β : Type} {aged : β → Nat} {p : Program β} {g : β → Report}
    (hp : Wp C t i (Post C t aged) p s) (hg : ∀ b, (g b).agedOut = aged b) :
    Wp C t i (Post C t Report.agedOut) (p >>= fun b => pure (g b)) s := by
  refine .seq hp (fun b s1 hb s2 h2 => ?_) fun _ _ h => h
  obtain ⟨done, hT⟩ := hb
  exact ⟨done, by rw [hg]; exact hT.of_own h2.own⟩

/-- A run that starts with nothing observed of it. -/
theorem wp_run (ho : s.own t = []) : Wp C t i (Post C t Report.agedOut) (run i) s := by
  cases i with
  | webhookPromote =>
    refine wp_call (c := .listStaging) trivial fun s1 e s2 a h1 hs _ hx => ?_
    have ho1 : s1.own t = [] := h1.own.trans ho
    simp only [exec] at hx
    split at hx
    · split at hx
      · next hperm =>
        cases hx
        have hp := isPerm_iff.1 hperm
        have hT := track_listed (F := ReportsDeletions C) ((hp.map _).nodup_iff.2 hs.staging_ids)
          ho1 (own_note rfl)
        exact wp_report (wp_promoteAll hT fun r hr => hs.staging r (hp.mem_iff.1 hr)) fun _ => rfl
      · cases hx
    · cases hx
      exact fun s3 h3 => stopped_of_own (h3.own.trans ho1)
  | orphanReconcile cap =>
    refine wp_call (c := .listOrphans) trivial fun s1 e s2 a h1 hs _ hx => ?_
    have ho1 : s1.own t = [] := h1.own.trans ho
    simp only [exec] at hx
    split at hx
    · split at hx
      · next hperm =>
        cases hx
        have hp := isPerm_iff.1 hperm
        have hT := track_listed (F := ReportsDeletions C) ((hp.map _).nodup_iff.2 s1.orphans.nodup)
          ho1 (own_note rfl)
        exact wp_report (wp_reconcileAll hT fun r hr => hs.orphans r (hp.mem_iff.1 hr)) fun _ => rfl
      · cases hx
    · cases hx
      exact fun s3 h3 => stopped_of_own (h3.own.trans ho1)

end

/-! ## Every run -/

section
variable [Aes256Gcm] {w w' : World} {a : Act} {C : Considered} {db : TenantDb}
  {partitions : List (Time × Time)}
variable {D : World → Act → Prop} {as : List Act}

/-- Runs are observed once they have started. -/
def Numbered (w : World) : Prop := ∀ o ∈ w.shared.log, ∀ t, o.run = some t → t < w.threads.length

theorem Numbered.step (h : Numbered w) (hs : system.step w a = some w') : Numbered w' := by
  obtain ⟨l, hl, hrun⟩ := (changes_of_step hs).log
  intro o ho t ht
  rw [hl] at ho
  rcases mem_append.1 ho with ho | ho
  · exact Nat.lt_of_lt_of_le (h o ho t ht) (Sys.step_length hs)
  · rw [hrun o ho] at ht
    cases a with
    | step u e =>
      cases ht
      obtain ⟨i, c, k, s', b, hth, -, -⟩ := Sys.step_thread hs
      exact Nat.lt_of_lt_of_le (List.getElem?_eq_some_iff.1 hth).1 (Sys.step_length hs)
    | start i => cases ht
    | env x => cases ht

/-- A step whose statement is considered keeps the rules. -/
theorem allows_of_considered (hn : Numbered w)
    (hC : ∀ t e i c k, a = .step t e → w.threads[t]? = some ⟨i, .call c k⟩ → C t i c e w.shared) :
    (rules C).Allows (fun t _ => Post C t Report.agedOut) w a where
  start i s' _ hs hsound := by
    cases hs
    refine ⟨hsound, fun u => .refl u _, wp_run ?_⟩
    refine filter_eq_nil_iff.2 fun o ho ht => ?_
    exact Nat.lt_irrefl _ (hn o ho _ (of_decide_eq_true ht))
  env x s' _ hs hsound := by
    have hc : Change ⟨fun _ => False, fun _ => False, True⟩ w.shared none s' :=
      change_of_move (fun _ => trivial) hs
    exact ⟨hsound.change hc (fun _ h => h.elim) fun _ h => h.elim, fun u => hc.changes.others nofun⟩
  step := hC

/-- In every run of considered statements the tables are sound and every run of a job ends as it
should. -/
theorem holds_of_run
    (hC : ∀ w a, D w a → ∀ t e i c k, a = .step t e → w.threads[t]? = some ⟨i, .call c k⟩ →
      C t i c e w.shared) (h : Run.Steps system.step D ⟨.start db partitions, []⟩ as w) :
    (rules C).Holds (fun t _ => Post C t Report.agedOut) w := by
  have hn : Run.Steps system.step (fun w a => D w a ∧ Numbered w) ⟨.start db partitions, []⟩ as w :=
    h.and_inv (fun _ _ _ _ hs hn => hn.step hs) fun _ h => absurd h not_mem_nil
  exact .run (fun w a hwa => allows_of_considered hwa.2 (hC w a hwa.1)) hn
    ⟨sound_start db partitions, .nil⟩

/-- In every run the tables are sound. -/
theorem sound_of_run (h : Run.Steps system.step D ⟨.start db partitions, []⟩ as w) :
    Sound w.shared :=
  (holds_of_run (C := fun _ _ _ _ _ => True) (fun _ _ _ _ _ _ _ _ _ _ => trivial) h).inv

/-- What a step allows a change to be. -/
abbrev allowed (w : World) (a : Act) : Allowed :=
  ⟨fun x => promotion? w a = some x, fun _ => True, isPass a = true⟩

/-- What every change of sound tables and the note of a failure keep holds in every run. -/
theorem invariant_of_run {I : Inbox → Prop}
    (hI : ∀ {w a s'}, D w a → Change (allowed w a) w.shared a.run s' → Sound w.shared → Sound s' →
      I w.shared → I s') (hnote : ∀ {s t id}, I s → I (s.note (.failed t id)))
    (h : Run.Steps system.step D ⟨.start db partitions, []⟩ as w) (h0 : I (.start db partitions)) :
    I w.shared := by
  refine (h.inv_history (I := fun _ w => I w.shared) (fun as w a w' hw hD hs hi => ?_) h0)
  have hsound : Sound w'.shared := sound_of_run (hw.snoc hD hs)
  obtain ⟨s1, hc, rfl | ⟨t, id, -, heq⟩⟩ := changes_of_step hs
  · exact hI hD hc (sound_of_run hw) hsound hi
  · rw [heq] at hsound ⊢
    exact hnote (hI hD hc (sound_of_run hw) hsound.of_failed hi)

end

end Messgr.Receipts
