import Messgr.Receipts.Suppressed

/-!
# The status of a request while receipts are promoted

Both jobs decide whether a receipt advances its request on the `final_status` that `find_match`
read, outside the transaction that writes it. Two runs that overlap so take a request from `read`
back to `delivered` (`finalStatus_regressed`). As long as the request still has the status that was
read when a receipt in order advances it, no promotion takes it back (`finalStatus_not_regresses`).

`comms_event` takes a redelivered receipt once. The advance and the suppression that come with it
have no such guard (`removed_suppression_added_again`). A duplicate changes nothing while no
promotion is overtaken and, since an absorbing receipt was promoted, nothing has undone what that
did (`duplicate_changes_nothing`).
-/

namespace Messgr

open List Option

/-! ## How far a status is -/

/-- A status moves to an earlier position, or leaves an absorbing one. -/
def regresses (before after : Option Status) : Bool :=
  (before.any (· ∈ absorbingStatuses) && !after.any (· ∈ absorbingStatuses)) ||
    match before.bind statusOrder.idxOf?, after.bind statusOrder.idxOf? with
    | some i, some j => j < i
    | _, _ => false

theorem finalRank_of_idxOf? {s : Status} {i : Nat} (h : statusOrder.idxOf? s = some i) :
    finalRank (some s) = i + 1 := by
  cases s <;> revert h <;> simp [statusOrder, finalRank, List.idxOf?, findIdx?_cons] <;> omega

theorem finalRank_absorbing {s : Status} (h : s ∈ absorbingStatuses) : finalRank (some s) = 6 := by
  cases s <;> first | rfl | (revert h; decide)

theorem absorbing_of_finalRank {x : Option Status} (h : 6 ≤ finalRank x) :
    x.any (· ∈ absorbingStatuses) = true := by
  rcases x with _ | s
  · cases h
  · cases s <;> first | rfl | (revert h; decide)

theorem not_regresses_of_finalRank_le {x y : Option Status} (h : finalRank x ≤ finalRank y) :
    regresses x y = false := by
  have habs : (x.any (· ∈ absorbingStatuses) && !y.any (· ∈ absorbingStatuses)) = false := by
    rw [Bool.and_eq_false_iff, Bool.not_eq_false']
    refine or_iff_not_imp_left.2 fun hx => absorbing_of_finalRank ?_
    obtain ⟨s, rfl, hs⟩ := (Option.any_eq_true _ _).1 (Bool.not_eq_false _ ▸ hx)
    rw [← finalRank_absorbing (of_decide_eq_true hs)]
    exact h
  rw [regresses, habs, Bool.false_or]
  split
  · next i j hi hj =>
    obtain ⟨s, rfl, hs⟩ := bind_eq_some_iff.1 hi
    obtain ⟨s', rfl, hs'⟩ := bind_eq_some_iff.1 hj
    rw [finalRank_of_idxOf? hs, finalRank_of_idxOf? hs'] at h
    exact decide_eq_false (by omega)
  · rfl

variable {current : Option Status} {e : Status}

theorem shouldAdvance_absorbing (he : e ∈ absorbingStatuses) : shouldAdvance current e = true := by
  cases current with
  | none => rfl
  | some cur => simp [shouldAdvance, he]

/-- A receipt is behind a status that it does not advance. -/
theorem finalRank_le_of_not_shouldAdvance (hr : isRecognizedEventType e = true)
    (h : shouldAdvance current e = false) : finalRank (some e) ≤ finalRank current := by
  by_cases he : e ∈ absorbingStatuses
  · rw [shouldAdvance_absorbing he] at h
    cases h
  · refine Nat.le_of_not_lt fun hlt => ?_
    rw [(shouldAdvance_iff (mem_statusOrder_of_recognized hr he)).2 hlt] at h
    cases h

namespace Receipts

/-! ## Promotions -/

/-- When an in-order receipt advances its request, that has the status `find_match` read. -/
def Promotion.timely (db : TenantDb) (x : Promotion) : Bool :=
  x.receipt.status ∈ absorbingStatuses ||
    !shouldAdvance x.matched.currentFinalStatus x.receipt.status ||
    (db.finalStatus? x.matched.key).all (· = x.matched.currentFinalStatus)

section
variable {s s' : Inbox} {u : Option Nat} {A : Allowed} {k : Time × Uuid} {c : Option Status}

/-- An in-order receipt that advances in time was behind what it advances. -/
theorem Promotion.timely.lt {db : TenantDb} {x : Promotion} (h : x.timely db = true)
    (hk : db.finalStatus? x.matched.key = some c) (habs : x.receipt.status ∉ absorbingStatuses)
    (hadv : shouldAdvance x.matched.currentFinalStatus x.receipt.status = true) :
    shouldAdvance c x.receipt.status = true ∧ finalRank c < finalRank (some x.receipt.status) := by
  simp only [Promotion.timely, habs, hadv, hk, decide_false, Bool.not_true, Bool.false_or, all_some,
    decide_eq_true_eq] at h
  rw [h]
  exact ⟨hadv, (shouldAdvance_iff (mem_statusOrder_of_recognized x.receipt.recognized habs)).1 hadv⟩

theorem finalStatus?_of_extends {db db' : TenantDb} (h : db.Extends db')
    (hk : db.finalStatus? k = some c) : db'.finalStatus? k = some c := by
  obtain ⟨r, hr, rfl⟩ := map_eq_some_iff.1 hk
  obtain ⟨hmem, rfl⟩ := Table.find?_some hr
  rw [TenantDb.finalStatus?, Table.find?_of_mem (h.requests r hmem)]
  rfl

/-- What a change does to the status of a request. -/
theorem Change.finalStatus? (h : Change A s u s') (hpass : ¬ A.pass)
    (hk : s.db.finalStatus? k = some c) :
    s'.db.finalStatus? k = some c ∨ ∃ x, A.promote x ∧ k = x.matched.key ∧
      shouldAdvance x.matched.currentFinalStatus x.receipt.status = true ∧
      s'.db.finalStatus? k = some (some x.receipt.status) := by
  cases h with
  | promoted x hx =>
    rw [promote_db, finalStatus?_promoteMatch, hk, map_some]
    split
    · next hadv => exact .inr ⟨x, hx, hadv.1, hadv.2, rfl⟩
    · exact .inl rfl
  | orphaned _ done => obtain ⟨_, _, -, -, rfl⟩ := toOrphan_eq done; exact .inl hk
  | deleted t id cap =>
    rcases deleteMissed_eq s t id cap with heq | ⟨r, -, -, -, heq⟩ <;> rw [heq] <;> exact .inl hk
  | stored done =>
    rcases insertStaging_eq done with ⟨-, rfl⟩ | ⟨_, _, -, -, rfl⟩ <;> exact .inl hk
  | extended rows => exact .inl (finalStatus?_of_extends rows hk)
  | passed allowed _ => exact absurd allowed hpass
  | _ => exact .inl hk

/-- Timely promotions take a request forward only. -/
theorem finalRank_le_of_change (h : Change A s u s') (hpass : ¬ A.pass)
    (ht : ∀ x, A.promote x → x.timely s.db = true) (hk : s.db.finalStatus? k = some c) :
    ∃ d, s'.db.finalStatus? k = some d ∧ finalRank c ≤ finalRank d := by
  rcases h.finalStatus? hpass hk with hk' | ⟨x, hx, rfl, hadv, hk'⟩
  · exact ⟨c, hk', Nat.le_refl _⟩
  · refine ⟨_, hk', ?_⟩
    by_cases habs : x.receipt.status ∈ absorbingStatuses
    · rw [finalRank_absorbing habs]
      rcases c with _ | c
      · exact Nat.zero_le _
      · cases c <;> decide
    · exact Nat.le_of_lt (Promotion.timely.lt (ht x hx) hk habs hadv).2

end

/-! ## No regress -/

section
variable {w w' : World} {a : Act} {as : List Act}

/-- The condition: it is one of a job or of the services around it other than a dispatch
pass, and what it promotes is timely. -/
def timelyPromotions (w : World) (a : Act) : Bool :=
  (promotion? w a).all (·.timely w.shared.db) && !isPass a

theorem timely_of_timelyPromotions (h : timelyPromotions w a = true) {x : Promotion}
    (hx : promotion? w a = some x) : x.timely w.shared.db = true := by
  rw [timelyPromotions, hx, Bool.and_eq_true] at h
  exact h.1

theorem not_isPass_of_timelyPromotions (h : timelyPromotions w a = true) : ¬ isPass a = true := by
  rw [timelyPromotions, Bool.and_eq_true, Bool.not_eq_true'] at h
  rw [h.2]
  exact Bool.false_ne_true

/-- From any state, in every run of the jobs whose promotions are timely, the status of every
request neither moves to an earlier position nor leaves an absorbing one. -/
theorem finalStatus_not_regresses [Aes256Gcm]
    (h : Run.Steps system.step (timelyPromotions · ·) w as w')
    {k : Time × Uuid} {c : Option Status} (hk : w.shared.db.finalStatus? k = some c) :
    ∃ d, w'.shared.db.finalStatus? k = some d ∧ regresses c d = false := by
  have hrank : ∃ d, w'.shared.db.finalStatus? k = some d ∧ finalRank c ≤ finalRank d := by
    refine h.inv (I := fun w => ∃ d, w.shared.db.finalStatus? k = some d ∧
      finalRank c ≤ finalRank d) (fun w a w' hC hs ⟨d, hd, hle⟩ => ?_) ⟨c, hk, Nat.le_refl _⟩
    obtain ⟨s1, hc, heq⟩ := changes_of_step hs
    obtain ⟨d', hd', hle'⟩ := finalRank_le_of_change hc (not_isPass_of_timelyPromotions hC)
      (fun x => timely_of_timelyPromotions hC) hd
    refine ⟨d', ?_, Nat.le_trans hle hle'⟩
    rcases heq with rfl | ⟨t, id, -, heq⟩
    · exact hd'
    · rw [heq]
      exact hd'
  obtain ⟨d, hd, hle⟩ := hrank
  exact ⟨d, hd, not_regresses_of_finalRank_le hle⟩

end

/-- Two runs list a delivered receipt and another, each the other's first one last, and both look up
the request while it is sent. -/
def lookedUpByTwoRuns (other : Status) : List Act :=
  [.env (.deliver (.sample 10 .delivered 5)), .env (.deliver (.sample 11 other 6)),
   .start .webhookPromote, .start .webhookPromote,
   .step 0 { staging := [.sample 10 .delivered 5, .sample 11 other 6] },
   .step 1 { staging := [.sample 11 other 6, .sample 10 .delivered 5] },
   .step 0 {}, .step 1 {}, .step 0 {}, .step 1 {}, .step 0 {}, .step 1 {}]

/-- The other is a bounce, committed last on a status that is no longer the request's. -/
theorem finalStatus_not_regresses_lookedUpByTwoRuns :
    ∃ w, Run.Steps (@system .sample).step (timelyPromotions · ·) sampleWorld
        (lookedUpByTwoRuns .bounced ++ [.step 0 { now := 7 }, .step 1 { now := 8 }]) w ∧
      w.shared.db.finalStatus? (0, ⟨1⟩) = some (some .bounced) ∧
      ∃ d, w.shared.db.finalStatus? (0, ⟨1⟩) = some d ∧ regresses (some .sent) d = false := by
  obtain ⟨w, hw, hp⟩ := Run.Steps.exists_of_checked (@system .sample).step timelyPromotions
    sampleWorld (lookedUpByTwoRuns .bounced ++ [.step 0 { now := 7 }, .step 1 { now := 8 }])
    (fun w => w.shared.db.finalStatus? (0, ⟨1⟩) = some (some .bounced)) (by decide +kernel)
  exact ⟨w, hw, of_decide_eq_true hp,
    @finalStatus_not_regresses _ _ _ .sample hw _ _ (by decide +kernel)⟩

/-- The delivered one is committed after a read one: read, and then delivered. -/
theorem finalStatus_regressed :
    ∃ w w', Run.Steps (@system .sample).step Run.Any sampleWorld
        (lookedUpByTwoRuns .read ++ [.step 1 { now := 7 }]) w ∧
      (@system .sample).step w (.step 0 { now := 8 }) = some w' ∧
      w.shared.db.finalStatus? (0, ⟨1⟩) = some (some .read) ∧
      w'.shared.db.finalStatus? (0, ⟨1⟩) = some (some .delivered) := by
  obtain ⟨w, hw, hp⟩ := Run.Steps.exists_of_exec (@system .sample).step sampleWorld
    (lookedUpByTwoRuns .read ++ [.step 1 { now := 7 }])
    (fun w => w.shared.db.finalStatus? (0, ⟨1⟩) = some (some .read) &&
      ((@system .sample).step w (.step 0 { now := 8 })).any
        (·.shared.db.finalStatus? (0, ⟨1⟩) = some (some .delivered))) (by decide +kernel)
  simp only [Bool.and_eq_true, decide_eq_true_eq, Option.any_eq_true] at hp
  obtain ⟨h1, w', hw', h2⟩ := hp
  exact ⟨w, w', hw, hw', h1, h2⟩

/-! ## Duplicates -/

/-- An event with the key of the promotion's was promoted for its request. -/
def Inbox.promotedBefore (s : Inbox) (x : Promotion) : Bool :=
  s.log.any fun
    | .promoted y => y.eventKey = x.eventKey && y.matched.key = x.matched.key
    | _ => false

/-- A promotion of the same event, for the same request; of a bounce or a complaint one by a clock
that was not behind. -/
def Obs.precedes (x : Promotion) : Obs → Bool
  | .promoted y => y.eventKey = x.eventKey && y.matched.key = x.matched.key &&
      ((autoSuppressReason x.receipt.status).isNone || x.now ≤ y.now)
  | _ => false

/-- A receipt of another absorbing status for the request; of a bounce or a complaint also an
operator's edit of the destination. -/
def Obs.undoes (x : Promotion) : Obs → Bool
  | .promoted y => y.matched.key = x.matched.key && y.receipt.status ∈ absorbingStatuses &&
      y.receipt.status ≠ x.receipt.status
  | .edited destinationHmac => (autoSuppressReason x.receipt.status).isSome &&
      destinationHmac = x.matched.destinationHmac
  | _ => false

/-- Nothing has undone an earlier promotion of the receipt. The latest observation comes first. -/
def stands (x : Promotion) : List Obs → Bool
  | [] => false
  | o :: l => o.precedes x || (!o.undoes x && stands x l)

/-- What the promotion of an absorbing receipt leaves. -/
structure Promotion.InEffect (x : Promotion) (db : TenantDb) : Prop where
  status : db.finalStatus? x.matched.key = some (some x.receipt.status)
  listed : (autoSuppressReason x.receipt.status).isSome = true →
    db.Listed x.matched.destinationHmac (x.now + 365 * day)

section
variable {s s' : Inbox} {u : Option Nat} {A : Allowed} {x : Promotion}

theorem promotedBefore_iff : s.promotedBefore x = true ↔
    ∃ y, .promoted y ∈ s.log ∧ y.eventKey = x.eventKey ∧ y.matched.key = x.matched.key := by
  rw [Inbox.promotedBefore, List.any_eq_true]
  constructor
  · rintro ⟨o, ho, h⟩
    cases o with
    | promoted y =>
      rw [Bool.and_eq_true, decide_eq_true_eq, decide_eq_true_eq] at h
      exact ⟨y, ho, h⟩
    | _ => cases h
  · rintro ⟨y, hy, hkey, hreq⟩
    exact ⟨_, hy, Bool.and_eq_true_iff.2 ⟨decide_eq_true hkey, decide_eq_true hreq⟩⟩

/-- The status that an observation shows a request to have reached. -/
def Obs.reached : Obs → Option ((Time × Uuid) × Option Status)
  | .matched _ _ (some m) => some (m.key, m.currentFinalStatus)
  | .promoted x => some (x.matched.key, some x.receipt.status)
  | _ => none

/-- Requests are at least as far as they were seen to be. -/
def Settled (s : Inbox) : Prop :=
  ∀ o ∈ s.log, ∀ k c, o.reached = some (k, c) →
    ∃ d, s.db.finalStatus? k = some d ∧ finalRank c ≤ finalRank d

theorem reached_of_mem_passObs {i : Nat} {row : OutboxRow} {env : Env} {db : TenantDb}
    {stage : Stage} {o : Obs} (h : o ∈ s.passObs i row env db stage) : o.reached = none := by
  rcases mem_passObs h with ⟨r, -, -, -, rfl⟩ | ⟨-, rfl⟩ | ⟨_, _, _, -, -, rfl⟩ <;> rfl

/-- What a change shows of a request: what `find_match` read, or what was promoted. -/
theorem Change.reached (h : Change A s u s') {o : Obs} (ho : o ∈ s'.log) {k : Time × Uuid}
    {c : Option Status} (hk : o.reached = some (k, c)) :
    o ∈ s.log ∨ (s'.db = s.db ∧ s.db.finalStatus? k = some c) ∨
      ∃ x, s' = s.promote x ∧ o = .promoted x := by
  have one : ∀ {o' : Obs}, o'.reached = none → o ∈ s.log ++ [o'] → o ∈ s.log := by
    intro o' hnone hmem
    refine (mem_append.1 hmem).resolve_right fun hmem => ?_
    rw [mem_singleton.1 hmem, hnone] at hk
    cases hk
  cases h with
  | same | partitioned | extended | begun => exact .inl ho
  | listed | missed | agedOut | suppressed | retired => exact .inl (one rfl ho)
  | matched t p =>
    rcases mem_append.1 ho with ho | ho
    · exact .inl ho
    · rw [mem_singleton.1 ho] at hk
      cases hm : findMatch s.db p.providerRef with
      | none => rw [hm] at hk; cases hk
      | some m =>
        rw [hm] at hk
        cases hk
        exact .inr (.inl ⟨rfl, finalStatus?_of_findMatch hm⟩)
  | promoted x =>
    rcases mem_append.1 ho with ho | ho
    · exact .inl ho
    · exact .inr (.inr ⟨x, rfl, mem_singleton.1 ho⟩)
  | orphaned _ done =>
    obtain ⟨_, _, -, -, rfl⟩ := toOrphan_eq done
    exact .inl (one rfl ho)
  | deleted t id cap =>
    rcases deleteMissed_eq s t id cap with heq | ⟨r, -, -, -, heq⟩
    · rw [heq] at ho; exact .inl ho
    · rw [heq] at ho; exact .inl (one rfl ho)
  | stored done =>
    rcases insertStaging_eq done with ⟨-, rfl⟩ | ⟨_, _, -, -, rfl⟩ <;> exact .inl (one rfl ho)
  | passed _ done =>
    obtain ⟨_, _, _, -, rfl⟩ := pass_eq done
    refine .inl ((mem_append.1 ho).resolve_right fun ho => ?_)
    rw [reached_of_mem_passObs ho] at hk
    cases hk

/-- A promotion takes its request at least to its receipt's status. -/
theorem Settled.promoted (h : Settled s) (hx : .matched x.run x.receipt.toPendingReceipt
    (some x.matched) ∈ s.log) : ∃ d, (s.promote x).db.finalStatus? x.matched.key = some d ∧
      finalRank (some x.receipt.status) ≤ finalRank d := by
  obtain ⟨d, hd, hle⟩ := h _ hx _ _ rfl
  rw [promote_db, finalStatus?_promoteMatch, hd, map_some]
  refine ⟨_, rfl, ?_⟩
  split
  · exact Nat.le_refl _
  · next hadv =>
    refine Nat.le_trans (finalRank_le_of_not_shouldAdvance x.receipt.recognized ?_) hle
    exact Bool.eq_false_iff.2 fun hy => hadv ⟨rfl, hy⟩

/-- The receipts of a request are matched with its destination. -/
theorem Sound.destination (h : Sound s) {y : Promotion} (hx : .promoted x ∈ s.log)
    (hy : .promoted y ∈ s.log) (hk : y.matched.key = x.matched.key) :
    y.matched.destinationHmac = x.matched.destinationHmac := by
  obtain ⟨r, hr, hrk, hrd⟩ := h.log _ (h.log _ hx).1.2
  obtain ⟨r', hr', hrk', hrd'⟩ := h.log _ (h.log _ hy).1.2
  rw [← hrd, ← hrd', Table.eq_of_key hr' hr ((hrk'.trans hk).trans hrk.symm)]

theorem stands_of_note {o : Obs} (h : stands x (s.log ++ [o]).reverse = true)
    (ho : o.precedes x = false) : o.undoes x = false ∧ stands x s.log.reverse = true := by
  rw [reverse_append] at h
  simpa [stands, ho] using h

theorem bounced_or_complaint (h : (autoSuppressReason e).isSome = true) :
    e = .bounced ∨ e = .complaint := by
  cases e <;> first | exact .inl rfl | exact .inr rfl | cases h

theorem absorbing_of_autoSuppressReason (h : (autoSuppressReason e).isSome = true) :
    e ∈ absorbingStatuses := by
  rcases bounced_or_complaint h with rfl | rfl <;> decide

/-- The promotion of a receipt has its effect, or leaves that of an earlier one. -/
theorem inEffect_promote {z : Promotion} {d : Option Status}
    (hx : x.receipt.status ∈ absorbingStatuses) (ht : z.timely s.db = true)
    (hd : s.db.finalStatus? z.matched.key = some d)
    (hdest : z.matched.key = x.matched.key → z.matched.destinationHmac = x.matched.destinationHmac)
    (hst : stands x (s.promote z).log.reverse = true)
    (ih : stands x s.log.reverse = true → x.InEffect s.db) : x.InEffect (s.promote z).db := by
  rw [promote_db]
  cases hpre : (Obs.promoted z).precedes x with
  | true =>
    simp only [Obs.precedes, Bool.and_eq_true, decide_eq_true_eq, Bool.or_eq_true] at hpre
    obtain ⟨⟨hkey, hreq⟩, htime⟩ := hpre
    have hstatus : z.receipt.status = x.receipt.status := by
      simp only [Promotion.eventKey, Prod.mk.injEq] at hkey
      exact hkey.2.2.1
    refine ⟨?_, fun hsome => ?_⟩
    · rw [finalStatus?_promoteMatch, ← hreq, hd, map_some,
        if_pos ⟨rfl, shouldAdvance_absorbing (e := z.receipt.status) (hstatus ▸ hx)⟩]
      exact congrArg (some ∘ some) hstatus
    · have hnow : x.now ≤ z.now := htime.resolve_left fun hnone => by
        rw [isNone_iff_eq_none.1 hnone] at hsome
        cases hsome
      have hr := bounced_or_complaint hsome
      rw [← hstatus] at hr
      rw [← hdest hreq]
      exact (listed_promoteMatch _ _ _ _ hr).mono (Int.add_le_add_right hnow _)
  | false =>
    obtain ⟨hundo, hst⟩ := stands_of_note hst hpre
    have he := ih hst
    refine ⟨?_, fun hsome => (he.listed hsome).promoteMatch _ _ _ _⟩
    rw [finalStatus?_promoteMatch, he.status, map_some]
    split
    · next h =>
      obtain ⟨hkey, hadv⟩ := h
      by_cases habs : z.receipt.status ∈ absorbingStatuses
      · have hstatus : z.receipt.status = x.receipt.status := by
          simpa [Obs.undoes, hkey, habs] using hundo
        exact congrArg (some ∘ some) hstatus
      · -- a receipt in order does not advance an absorbing status
        have hadv' := (Promotion.timely.lt ht (hkey ▸ he.status) habs hadv).1
        rw [not_shouldAdvance_of_absorbing hx habs] at hadv'
        cases hadv'
    · rfl

/-- A change that undoes nothing keeps a promotion in effect. -/
theorem inEffect_of_change (hx : x.receipt.status ∈ absorbingStatuses) (hc : Change A s u s')
    (hpass : ¬ A.pass) (ht : ∀ z, A.promote z → z.timely s.db = true) (hs : Sound s)
    (hs' : Sound s')
    (hdest : ∀ y, .promoted y ∈ s'.log → y.matched.key = x.matched.key →
      y.matched.destinationHmac = x.matched.destinationHmac)
    (hst : stands x s'.log.reverse = true)
    (ih : stands x s.log.reverse = true → x.InEffect s.db) : x.InEffect s'.db := by
  cases hc with
  | same | partitioned | begun => exact ih hst
  | listed | matched | missed | agedOut => exact ih (stands_of_note hst rfl).2
  | extended rows =>
    have he := ih hst
    exact ⟨finalStatus?_of_extends rows he.status,
      fun h => (he.listed h).of_eq (by rw [rows.gates])⟩
  | promoted z allowed =>
    have hz : .promoted z ∈ (s.promote z).log := mem_append_right _ (.head _)
    have hm := (mem_append.1 (hs'.log _ hz).1.2).resolve_right fun hm => by
      cases mem_singleton.1 hm
    obtain ⟨r, hr, hk, -⟩ := hs.log _ hm
    have hd : s.db.finalStatus? z.matched.key = some r.finalStatus := by
      rw [← hk, TenantDb.finalStatus?, Table.find?_of_mem hr]
      rfl
    exact inEffect_promote hx (ht z allowed) hd (hdest z hz) hst ih
  | orphaned _ done =>
    obtain ⟨_, _, -, -, rfl⟩ := toOrphan_eq done
    exact ih (stands_of_note hst rfl).2
  | deleted t id cap =>
    rcases deleteMissed_eq s t id cap with heq | ⟨r, -, -, -, heq⟩ <;> rw [heq] at hst ⊢
    · exact ih hst
    · exact ih (stands_of_note hst rfl).2
  | stored done =>
    rcases insertStaging_eq done with ⟨-, rfl⟩ | ⟨_, _, -, -, rfl⟩ <;>
      exact ih (stands_of_note hst rfl).2
  | suppressed input =>
    obtain ⟨hundo, hst⟩ := stands_of_note hst rfl
    have he := ih hst
    refine ⟨he.status, fun hsome => listed_upsertSuppression (he.listed hsome) ?_⟩
    simpa [Obs.undoes, hsome] using hundo
  | retired destinationHmac now =>
    obtain ⟨hundo, hst⟩ := stands_of_note hst rfl
    have he := ih hst
    refine ⟨he.status, fun hsome => listed_retireNow (he.listed hsome) ?_ now⟩
    simpa [Obs.undoes, hsome] using hundo
  | passed allowed _ => exact absurd allowed hpass

/-- A timely change keeps requests as far as they were seen. -/
theorem Settled.change (h : Settled s) (hc : Change A s u s') (hpass : ¬ A.pass)
    (ht : ∀ x, A.promote x → x.timely s.db = true) (hs' : Sound s') : Settled s' := by
  intro o ho k c hk
  rcases hc.reached ho hk with ho | ⟨heq, hd⟩ | ⟨x, rfl, rfl⟩
  · obtain ⟨d, hd, hle⟩ := h o ho k c hk
    obtain ⟨d', hd', hle'⟩ := finalRank_le_of_change hc hpass ht hd
    exact ⟨d', hd', Nat.le_trans hle hle'⟩
  · exact ⟨c, heq ▸ hd, Nat.le_refl _⟩
  · cases hk
    have hm := (hs'.log _ ho).1.2
    refine h.promoted ((mem_append.1 hm).resolve_right fun hm => ?_)
    cases mem_singleton.1 hm

end

section
variable {w w' : World} {a : Act} {as : List Act} {db : TenantDb}
  {partitions : List (Time × Time)} {x : Promotion}

/-- The condition: promotions are timely, and since an absorbing receipt that is promoted
again was promoted, nothing has undone that. -/
def duplicatesStand (w : World) (a : Act) : Bool :=
  timelyPromotions w a &&
    (promotion? w a).all fun x => !w.shared.promotedBefore x ||
      x.receipt.status ∉ absorbingStatuses || stands x w.shared.log.reverse

/-- What is in effect is not suppressed again. -/
theorem promoteMatch_suppression_of_inEffect
    (h : (autoSuppressReason x.receipt.status).isSome = true →
      db.Listed x.matched.destinationHmac (x.now + 365 * day)) :
    (promoteMatch db x.now x.matched x.receipt.toReceipt x.ciphertext).gates.suppression =
      db.gates.suppression := by
  rw [TenantDb.promoteMatch_suppression]
  split
  · next reason hr =>
    obtain ⟨old, hold, hk, hle⟩ := h (Option.isSome_iff_exists.2 ⟨reason, hr⟩)
    rcases suppress_eq db x.matched.destinationHmac reason x.now with
      ⟨-, heq⟩ | ⟨row, -, hrev, hlt, -⟩
    · exact heq
    · exact absurd (hrev ▸ hlt old hold hk) (Int.not_lt.2 hle)
  · rfl

theorem settled_of_run [Aes256Gcm]
    (h : Run.Steps system.step (timelyPromotions · ·) ⟨.start db partitions, []⟩ as w) :
    Settled w.shared := by
  refine invariant_of_run (I := Settled) (fun hD hc _ hs' hi => ?_) (fun hi o ho k c hk => ?_) h
    fun _ ho => absurd ho not_mem_nil
  · exact hi.change hc (not_isPass_of_timelyPromotions hD)
      (fun x => timely_of_timelyPromotions hD) hs'
  · rcases mem_append.1 ho with ho | ho
    · exact hi o ho k c hk
    · rw [mem_singleton.1 ho] at hk
      cases hk

/-- What nothing has undone is in effect. -/
theorem inEffect_of_run [Aes256Gcm]
    (h : Run.Steps system.step (timelyPromotions · ·) ⟨.start db partitions, []⟩ as w)
    (hx : x.receipt.status ∈ absorbingStatuses)
    (hdest : ∀ y, .promoted y ∈ w.shared.log → y.matched.key = x.matched.key →
      y.matched.destinationHmac = x.matched.destinationHmac)
    (hst : stands x w.shared.log.reverse = true) : x.InEffect w.shared.db := by
  refine invariant_of_run (I := fun s => (∀ y, .promoted y ∈ s.log →
    y.matched.key = x.matched.key → y.matched.destinationHmac = x.matched.destinationHmac) →
    stands x s.log.reverse = true → x.InEffect s.db) (fun hD hc hs hs' hi hd hst => ?_)
    (fun hi hd hst => ?_) h (fun _ h => by cases h) hdest hst
  · exact inEffect_of_change hx hc (not_isPass_of_timelyPromotions hD)
      (fun x => timely_of_timelyPromotions hD) hs hs' hd hst
      (hi fun y hy => hd y (hc.grew.log _ hy))
  · exact hi (fun y hy => hd y (mem_append_left _ hy)) (stands_of_note hst rfl).2

/-- In every run that meets the condition, a step that promotes a receipt whose event was promoted
before leaves the events, the status of every request and the suppression list as they were. -/
theorem duplicate_changes_nothing [Aes256Gcm] (db : TenantDb)
    (partitions : List (Time × Time))
    (h : Run.Steps system.step (duplicatesStand · ·) ⟨.start db partitions, []⟩ as w)
    (ha : duplicatesStand w a = true) (hs : system.step w a = some w')
    (hx : promotion? w a = some x) (hdup : w.shared.promotedBefore x = true) :
    w'.shared.db.commsEvent = w.shared.db.commsEvent ∧
      (∀ k, w'.shared.db.finalStatus? k = w.shared.db.finalStatus? k) ∧
      w'.shared.db.gates.suppression = w.shared.db.gates.suppression := by
  have hweak : ∀ w a, duplicatesStand w a = true → timelyPromotions w a = true :=
    fun w a h => (Bool.and_eq_true_iff.1 h).1
  have hsettled := settled_of_run (h.mono hweak)
  have hsound := sound_of_run h
  have htimely := timely_of_timelyPromotions (hweak w a ha) hx
  have heffect : x.receipt.status ∈ absorbingStatuses → x.InEffect w.shared.db := by
    intro habs
    have hst := (Bool.and_eq_true_iff.1 ha).2
    simp only [hx, Option.all_some, hdup, habs, not_true_eq_false, decide_false, Bool.not_true,
      Bool.false_or] at hst
    refine inEffect_of_run (h.mono hweak) habs (fun y hy hk => ?_) hst
    exact (sound_of_run (h.snoc ha hs)).destination (mem_log_of_promotion? hs hx)
      ((changes_of_step hs).grew.log _ hy) hk
  obtain ⟨y, hy, hkey, hreq⟩ := promotedBefore_iff.1 hdup
  rw [db_of_promotion? hs hx]
  refine ⟨?_, fun k => ?_, promoteMatch_suppression_of_inEffect fun hsome =>
    (heffect (absorbing_of_autoSuppressReason hsome)).listed hsome⟩
  · obtain ⟨e, he, hek⟩ := (hsound.log _ hy).2
    rw [TenantDb.promoteMatch_commsEvent, TenantDb.insertEvent_of_exists he (hek.trans hkey)]
  · rw [finalStatus?_promoteMatch]
    cases hk : w.shared.db.finalStatus? k with
    | none => rfl
    | some d =>
      rw [Option.map_some]
      split
      · next hadv =>
        obtain ⟨rfl, hadv⟩ := hadv
        obtain ⟨d', hd', hle⟩ := hsettled _ hy _ _ rfl
        rw [hreq, hk] at hd'
        cases hd'
        -- the event's key holds the status of the first promotion
        have hst : y.receipt.status = x.receipt.status := by
          simp only [Promotion.eventKey, Prod.mk.injEq] at hkey
          exact hkey.2.2.1
        rw [hst] at hle
        by_cases habs : x.receipt.status ∈ absorbingStatuses
        · exact (heffect habs).status.symm.trans hk
        · exact absurd (Promotion.timely.lt htimely hk habs hadv).2 (Nat.not_lt.2 hle)
      · rfl

end

/-- A receipt that is promoted, redelivered and looked up again, by a second run. -/
def redelivered (status : Status) (between : List Act) : List Act :=
  ([.env (.deliver (.sample 10 status 5)), .start .webhookPromote,
    .step 0 { staging := [.sample 10 status 5] }, .step 0 {}, .step 0 {}, .step 0 {},
    .step 0 { now := 7 }] : List Act) ++ between ++
  ([.env (.deliver (.sample 11 status 5)), .start .webhookPromote,
    .step 1 { staging := [.sample 11 status 5] }, .step 1 {}, .step 1 {}, .step 1 {}] : List Act)

/-- A bounce is redelivered, and promoted again at once. -/
theorem duplicate_changes_nothing_redelivered :
    ∃ w w', Run.Steps (@system .sample).step (duplicatesStand · ·) sampleWorld
        (redelivered .bounced []) w ∧
      (@system .sample).step w (.step 1 { now := 7 }) = some w' ∧
      w.shared.db.Listed [7] (7 + 365 * day) ∧
      w'.shared.db.commsEvent = w.shared.db.commsEvent ∧
      (∀ k, w'.shared.db.finalStatus? k = w.shared.db.finalStatus? k) ∧
      w'.shared.db.gates.suppression = w.shared.db.gates.suppression := by
  obtain ⟨w, hw, hp⟩ := Run.Steps.exists_of_checked (@system .sample).step duplicatesStand
    sampleWorld (redelivered .bounced [])
    (fun w => duplicatesStand w (.step 1 { now := 7 }) &&
      ((@system .sample).step w (.step 1 { now := 7 })).isSome &&
      w.shared.db.gates.suppression.rows.any
        (fun r => r.destinationHmac = [7] && 7 + 365 * day ≤ r.reviewAt) &&
      (promotion? w (.step 1 { now := 7 })).any w.shared.promotedBefore) (by decide +kernel)
  simp only [Bool.and_eq_true, Option.isSome_iff_exists, Option.any_eq_true, List.any_eq_true,
    decide_eq_true_eq] at hp
  obtain ⟨⟨⟨hc, w', hw'⟩, hlisted⟩, x, hx, hdup⟩ := hp
  exact ⟨w, w', hw, hw', hlisted,
    @duplicate_changes_nothing _ _ _ _ _ .sample _ _ hw hc hw' hx hdup⟩

/-- A bounce is promoted, an operator takes the destination off the list, and the bounce is
redelivered: the destination is suppressed for another year. -/
theorem removed_suppression_added_again :
    ∃ w w' x, Run.Steps (@system .sample).step Run.Any sampleWorld
        (redelivered .bounced [.env (.removeSuppression [7] 8)]) w ∧
      (@system .sample).step w (.step 1 { now := 9 }) = some w' ∧
      promotion? w (.step 1 { now := 9 }) = some x ∧ w.shared.promotedBefore x = true ∧
      (w.shared.db.gates.suppression.find? [7]).map (·.reviewAt) = some 8 ∧
      (w'.shared.db.gates.suppression.find? [7]).map (·.reviewAt) = some (9 + 365 * day) := by
  obtain ⟨w, hw, hp⟩ := Run.Steps.exists_of_exec (@system .sample).step sampleWorld
    (redelivered .bounced [.env (.removeSuppression [7] 8)])
    (fun w => (promotion? w (.step 1 { now := 9 })).any w.shared.promotedBefore &&
      (w.shared.db.gates.suppression.find? [7]).map (·.reviewAt) = some 8 &&
      ((@system .sample).step w (.step 1 { now := 9 })).any fun w' =>
        (w'.shared.db.gates.suppression.find? [7]).map (·.reviewAt) = some (9 + 365 * day))
    (by decide +kernel)
  simp only [Bool.and_eq_true, Option.any_eq_true, decide_eq_true_eq] at hp
  obtain ⟨⟨⟨x, hx, hdup⟩, h1⟩, w', hw', h2⟩ := hp
  exact ⟨w, w', x, hw, hw', hx, hdup, h1, h2⟩

end Receipts

end Messgr
