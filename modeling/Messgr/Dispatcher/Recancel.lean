import Messgr.Dispatcher.Cancellation

/-!
# Cancelling again

`cancel` answers `Cancelled` while the row is queued, and after that from the final status of the
request, for which it takes any status but `cancelled` to mean that the message was sent. The mark
on a row keeps nobody from writing such a status over it, and the answer to a repeated call is then
another one (`cancel_answers_twice`). `cancel_idempotent` is for runs in which a message that was
cancelled gets no other status; `Withdrawn` is the invariant.
-/

namespace Messgr

open Option List Bool

/-- The answer of `cancel`, whose statements find the tables `db` and, if the first finds no row,
`db'`. Source: `src/ingest/repo.rs`, `cancel`. -/
def cancelAnswer (db db' : TenantDb) (now : Time) (id producerId : Uuid) : CancelOutcome :=
  if (cancelOutbox db now id producerId).1 then .cancelled else cancelFallback db' id producerId

/-- The act is the statement by which the producer's `cancel` comes to answer `Cancelled`. -/
def answersCancelled (id producerId : Uuid) (w : World) : Act → Bool
  | .cancel now id' producerId' =>
    id' = id && producerId' = producerId && (cancelOutbox w.db now id producerId).1
  | .cancelFallback id' producerId' =>
    id' = id && producerId' = producerId && cancelFallback w.db id producerId = .cancelled
  | _ => false

/-- A message is cancelled: its row is marked, or it is settled so. -/
def World.isWithdrawn (w : World) (id : Uuid) : Bool :=
  (w.db.outbox.rows.any fun r => r.commsRequestId = id && r.cancelledAt.isSome) ||
    w.db.commsRequest.rows.any fun q => q.id = id && q.finalStatus = some .cancelled

/-- The condition: a pass or a discard that is at a write over a message that is cancelled
writes `cancelled`, or its statement fails. What writes something else is a discard, a pass that a
gate before the look has stopped, and one that was past the look when the mark was set. -/
def keepsCancelled (w : World) : Act → Bool
  | .task t env => (w.job? t).all fun job =>
      job.stage.writes.all (· = .cancelled) || env.reply = .failed || !w.isWithdrawn job.id
  | _ => true

/-- A queued row is of the producer of its request. -/
def TenantDb.OwnersAgree (db : TenantDb) : Prop :=
  ∀ r ∈ db.outbox, ∀ q ∈ db.commsRequest, q.id = r.commsRequestId → q.producerId = r.producerId

/-- A message cancelled by its producer: its row is marked while it is queued, and it has no status
but `cancelled`. -/
structure Withdrawn (w : World) (id producerId : Uuid) : Prop where
  known : ∃ q ∈ w.db.commsRequest, q.id = id
  producer : ∀ q ∈ w.db.commsRequest, q.id = id → q.producerId = producerId
  row : ∀ r ∈ w.db.outbox, r.commsRequestId = id →
    r.producerId = producerId ∧ r.cancelledAt.isSome = true
  status : ∀ q ∈ w.db.commsRequest, q.id = id →
    q.finalStatus = none ∨ q.finalStatus = some .cancelled

/-! ## The answers -/

section
variable {db : TenantDb} {w w' : World} {a : Act} {id producerId : Uuid}

/-- The second statement answers `Cancelled` for the producer's request settled so. -/
theorem cancelFallback_eq_cancelled (h : db.Agrees) :
    cancelFallback db id producerId = .cancelled ↔
      ∃ q ∈ db.commsRequest, q.id = id ∧ q.producerId = producerId ∧
        q.finalStatus = some .cancelled := by
  constructor
  · intro hc
    unfold cancelFallback at hc
    dsimp only at hc
    split at hc
    · next hb =>
      obtain ⟨q, hq, hf⟩ := bind_eq_some_iff.1 hb
      have hp := find?_some hq
      simp only [and_eq_true, decide_eq_true_eq] at hp
      exact ⟨q, mem_of_find?_eq_some hq, hp.1, hp.2, hf⟩
    · cases hc
    · cases hc
  · rintro ⟨q, hq, rfl, rfl, hf⟩
    have hfind : db.commsRequest.rows.find? (fun r => r.id = q.id && r.producerId = q.producerId) =
        some q := by
      obtain ⟨q', hq'⟩ := isSome_iff_exists.1
        (find?_isSome.2 ⟨q, hq, by simp⟩ : (db.commsRequest.rows.find? fun r =>
          r.id = q.id && r.producerId = q.producerId).isSome = true)
      have hp := find?_some hq'
      simp only [and_eq_true, decide_eq_true_eq] at hp
      rw [hq', h.unique q' (mem_of_find?_eq_some hq') q hq hp.1]
    simp only [cancelFallback, hfind, bind_some, hf]

/-- A message that is cancelled and not queued any more is settled so. -/
theorem Withdrawn.settled (h : Withdrawn w id producerId) (hs : w.Sound) {now : Time}
    (hnone : (cancelOutbox w.db now id producerId).1 = false) : w.db.Settled id := by
  obtain ⟨q, hq, hid⟩ := h.known
  refine ⟨q, hq, hid, fun hf => ?_⟩
  obtain ⟨o, ho, hoid⟩ := hs.db.agrees.queued q hq hf
  have hfound : (cancelOutbox w.db now id producerId).1 = true :=
    cancelOutbox_fst.2 ⟨o, ho, hoid.trans hid, (h.row o ho (hoid.trans hid)).1⟩
  rw [hnone] at hfound
  cases hfound

theorem Withdrawn.fallback (h : Withdrawn w id producerId) (hs : w.Sound)
    (hset : w.db.Settled id) : cancelFallback w.db id producerId = .cancelled := by
  obtain ⟨q, hq, hid, hf⟩ := hset
  exact (cancelFallback_eq_cancelled hs.db.agrees).2
    ⟨q, hq, hid, h.producer q hq hid, (h.status q hq hid).resolve_left hf⟩

theorem Withdrawn.isWithdrawn (h : Withdrawn w id producerId) (hs : w.Sound) :
    w.isWithdrawn id = true := by
  obtain ⟨q, hq, hid⟩ := h.known
  simp only [World.isWithdrawn, or_eq_true, List.any_eq_true, and_eq_true, decide_eq_true_eq]
  rcases h.status q hq hid with hf | hf
  · obtain ⟨o, ho, hoid⟩ := hs.db.agrees.queued q hq hf
    exact .inl ⟨o, ho, hoid.trans hid, (h.row o ho (hoid.trans hid)).2⟩
  · exact .inr ⟨q, hq, hid, hf⟩

/-! ## Steps -/

/-- Queued rows stay those of the producers of their requests. -/
theorem ownersAgree_step (h : w.db.OwnersAgree) (hq : QueueStep w a w') : w'.db.OwnersAgree := by
  intro r' hr' q' hq' hid
  rcases hq.request_cases hq' with ⟨q, hqm, hqc⟩ | ⟨-, -, r, hr, hrid, hp⟩
  · rcases hq.outbox_continues hr' with ⟨r, hr, hrc⟩ | hnew
    · rw [← hqc.producerId, ← hrc.producerId]
      exact h r hr q hqm (hqc.id.trans (hid.trans hrc.id.symm))
    · exact absurd (hqc.id.trans hid) (hnew q hqm)
  · rw [← hp, Table.eq_of_key hr hr' (hrid.trans hid)]

/-- What a producer has cancelled stays so, while it gets no other status. -/
theorem Withdrawn.step (h : Withdrawn w id producerId) (hs : w.Sound)
    (hc : keepsCancelled w a = true) (hq : QueueStep w a w') : Withdrawn w' id producerId := by
  obtain ⟨q0, hq0, hq₀id⟩ := h.known
  -- the message is in the ledger, so no request with its id is new
  have old : ∀ q' ∈ w'.db.commsRequest, q'.id = id →
      ∃ q ∈ w.db.commsRequest, q.id = id ∧ q.Continues w a q' := by
    intro q' hq' hid
    rcases hq.request_cases hq' with ⟨q, hqm, hqc⟩ | ⟨hnew, -⟩
    · exact ⟨q, hqm, hqc.id.trans hid, hqc⟩
    · exact absurd (hq₀id.trans hid.symm) (hnew q0 hq0)
  refine ⟨?_, fun q' hq' hid => ?_, fun r' hr' hid => ?_, fun q' hq' hid => ?_⟩
  · obtain ⟨q', hq', hid, -⟩ := (hs.db_step hq).2 q0 hq0
    exact ⟨q', hq', hid.trans hq₀id⟩
  · obtain ⟨q, hqm, hqid, hqc⟩ := old q' hq' hid
    exact hqc.producerId.symm.trans (h.producer q hqm hqid)
  · rcases hq.outbox_continues hr' with ⟨r, hr, hrc⟩ | hnew
    · obtain ⟨hp, hm⟩ := h.row r hr (hrc.id.trans hid)
      exact ⟨hrc.producerId.symm.trans hp, hrc.cancelled hm⟩
    · exact absurd (hq₀id.trans hid.symm) (hnew q0 hq0)
  · obtain ⟨q, hqm, hqid, hqc⟩ := old q' hq' hid
    rcases hqc.status with hsame | ⟨status, ⟨t, env, job, rfl, hjob, hjid, hwrites, hreply⟩,
      hstatus⟩
    · exact hsame ▸ h.status q hqm hqid
    · -- the condition: the write is that of a cancellation
      have hw : w.isWithdrawn job.id = true := hjid ▸ hid ▸ h.isWithdrawn hs
      simp only [keepsCancelled, hjob, all_some, hwrites, hw, hreply, decide_false,
        Bool.or_false, Bool.not_true, decide_eq_true_eq] at hc
      exact .inr (hstatus.trans (congrArg some hc))

variable [UuidCrate]

/-- A message whose row `cancel` has marked is one that the producer has cancelled. -/
theorem withdrawn_of_cancel (hs : w.Sound) (ho : w.db.OwnersAgree) {now : Time}
    (h : w.step (.cancel now id producerId) = some w')
    (hfound : (cancelOutbox w.db now id producerId).1 = true) : Withdrawn w' id producerId := by
  have hdb : w'.db = (cancelOutbox w.db now id producerId).2 := by
    cases h
    simp only [World.cancel, hfound, if_true]
  have hreq : w'.db.commsRequest = w.db.commsRequest := by rw [hdb]; rfl
  obtain ⟨o, hom, hoid, hop⟩ := cancelOutbox_fst.1 hfound
  obtain ⟨q, hqm, hqid, -, -, hopen⟩ := hs.db.agrees.request o hom
  have hone : ∀ q' ∈ w'.db.commsRequest, q'.id = id → q' = q := fun q' hq' hid =>
    hs.db.agrees.unique q' (hreq ▸ hq') q hqm (hid.trans (hqid.trans hoid).symm)
  refine ⟨⟨q, hreq ▸ hqm, hqid.trans hoid⟩, fun q' hq' hid => ?_, fun r hr hid => ?_,
    fun q' hq' hid => .inl (hone q' hq' hid ▸ hopen)⟩
  · rw [hone q' hq' hid]
    exact (ho o hom q hqm hqid).trans hop
  · rw [hdb] at hr
    rcases mem_cancelOutbox.1 hr with ⟨hr, hne⟩ | ⟨r0, -, hr0, rfl⟩
    · have := Table.eq_of_key hr hom (hid.trans hoid.symm)
      exact absurd ⟨hid, this ▸ hop⟩ hne
    · exact ⟨hr0.2, rfl⟩

/-- So is one that `cancel` has found settled as cancelled. -/
theorem withdrawn_of_cancelFallback (hs : w.Sound)
    (h : w.step (.cancelFallback id producerId) = some w')
    (hfound : cancelFallback w.db id producerId = .cancelled) : Withdrawn w' id producerId := by
  have hdb : w'.db = w.db := by
    simp only [World.step, World.cancelFallback, hfound] at h
    split at h <;> cases h
    rfl
  obtain ⟨q, hqm, hqid, hqp, hf⟩ := (cancelFallback_eq_cancelled hs.db.agrees).1 hfound
  have hone : ∀ q' ∈ w.db.commsRequest, q'.id = id → q' = q := fun q' hq' hid =>
    hs.db.agrees.unique q' hq' q hqm (hid.trans hqid.symm)
  have hset : w.db.Settled id := ⟨q, hqm, hqid, by rw [hf]; exact some_ne_none _⟩
  refine ⟨⟨q, hdb ▸ hqm, hqid⟩, fun q' hq' hid => hone q' (hdb ▸ hq') hid ▸ hqp,
    fun r hr hid => ?_, fun q' hq' hid => .inr (hone q' (hdb ▸ hq') hid ▸ hf)⟩
  exact absurd hid (hs.db.agrees.ne_of_settled hset (hdb ▸ hr))

/-- A message for which `cancel` answers `Cancelled` is cancelled by its producer. -/
theorem withdrawn_of_answer (hs : w.Sound) (ho : w.db.OwnersAgree) (h : w.step a = some w')
    (ha : answersCancelled id producerId w a = true) : Withdrawn w' id producerId := by
  cases a with
  | cancel now id' producerId' =>
    simp only [answersCancelled, and_eq_true, decide_eq_true_eq] at ha
    obtain ⟨⟨rfl, rfl⟩, hfound⟩ := ha
    exact withdrawn_of_cancel hs ho h hfound
  | cancelFallback id' producerId' =>
    simp only [answersCancelled, and_eq_true, decide_eq_true_eq] at ha
    obtain ⟨⟨rfl, rfl⟩, hfound⟩ := ha
    exact withdrawn_of_cancelFallback hs h hfound
  | _ => cases ha

/-- In every run in which a message that was cancelled gets no other status, once a call of `cancel`
by a producer has come to answer `Cancelled`, every later call by the producer answers so, whatever
happens before it and between its two statements. -/
theorem cancel_idempotent {w0 w1 w2 : World} {as bs : List Act} (h0 : w0.Initial)
    (ho : w0.db.OwnersAgree)
    (h1 : Run.Passed World.step (keepsCancelled · ·) (answersCancelled id producerId · ·) w0 as w1)
    (h2 : Run.Steps World.step (keepsCancelled · ·) w1 bs w2) (now : Time) :
    cancelAnswer w1.db w2.db now id producerId = .cancelled := by
  obtain ⟨as1, a, as2, u, v, -, hu, -, hv, has2, ha⟩ := h1
  obtain ⟨hsu, hou⟩ : u.Sound ∧ u.db.OwnersAgree :=
    hu.inv (I := fun w => w.Sound ∧ w.db.OwnersAgree)
      (fun _ _ _ _ hs hi => ⟨hi.1.of_step hs, ownersAgree_step hi.2 (queueStep_of_step hs)⟩)
      ⟨h0.sound, ho⟩
  have kept : ∀ {w w' : World} {bs : List Act}, w.Sound ∧ Withdrawn w id producerId →
      Run.Steps World.step (keepsCancelled · ·) w bs w' →
      w'.Sound ∧ Withdrawn w' id producerId := fun hi h =>
    h.inv (I := fun w => w.Sound ∧ Withdrawn w id producerId)
      (fun _ _ _ hc hs hi => ⟨hi.1.of_step hs, hi.2.step hi.1 hc (queueStep_of_step hs)⟩) hi
  obtain ⟨hs1, hw1⟩ := kept ⟨hsu.of_step hv, withdrawn_of_answer hsu hou hv ha⟩ has2
  obtain ⟨hs2, hw2⟩ := kept ⟨hs1, hw1⟩ h2
  unfold cancelAnswer
  split
  · rfl
  · next hnone =>
    have hset := hw1.settled hs1 (Bool.not_eq_true _ ▸ hnone)
    -- what is settled stays settled until the second statement
    have hset2 : w2.db.Settled id :=
      h2.inv_of (J := World.Sound) (I := fun w => w.db.Settled id)
        (fun _ _ _ _ hs hi => hi.of_step hs)
        (fun _ _ _ _ hs hi hset => (hi.db_step (queueStep_of_step hs)).2.settled hset) hs1 hset
    exact hw2.fallback hs2 hset2

end

/-! ### Runs on fixed inputs -/

/-- A message that expires. -/
def NewComms.expiring : NewComms := { NewComms.sample ⟨7⟩ "k" with expiresAt := some 5 }

/-- A dispatcher leads and a message is accepted. -/
def acceptedExpiring : List Act :=
  [Act.startDispatcher .sample, .openContext] ++ Act.elect 0 ++ Act.accept 1 .expiring ++
    [Act.task 0 {}]

/-- The message is claimed before it expires, and its pass goes to its end. -/
def passedInTime : List Act := Act.claimRow 0 ⟨7⟩ ++ List.replicate 11 (Act.task 0 {})

/-- The message is cancelled, its pass writes so, and the call is repeated. -/
theorem cancel_idempotent_passedInTime :
    ∃ w, Run.Passed (@World.step .sample) (keepsCancelled · ·) (answersCancelled ⟨7⟩ ⟨2⟩ · ·)
        .empty (acceptedExpiring ++ .cancel 0 ⟨7⟩ ⟨2⟩ :: passedInTime) w ∧
      w.db.outbox.rows = [] ∧ cancelAnswer w.db w.db 9 ⟨7⟩ ⟨2⟩ = .cancelled := by
  obtain ⟨w, hw, hp⟩ := Run.Passed.exists_of_checked (@World.step .sample) keepsCancelled
    (answersCancelled ⟨7⟩ ⟨2⟩) .empty acceptedExpiring (.cancel 0 ⟨7⟩ ⟨2⟩) passedInTime
    (fun w => w.db.outbox.rows = []) (by decide)
  exact ⟨w, hw, of_decide_eq_true hp, @cancel_idempotent _ _ .sample _ _ _ _ _ World.initial_empty
    (fun r hr => absurd hr (Table.not_mem_empty r)) hw .nil 9⟩

/-- The message is claimed after it has expired, and its pass goes to its end. -/
def passedTooLate : List Act :=
  Act.claimRow 0 ⟨7⟩ ++ List.replicate 2 (Act.task 0 { clock := 9, now := 9 })

/-- Without the condition a repeated call answers `AlreadySent`: the pass has written `expired` over
the cancelled message. -/
theorem cancel_answers_twice :
    ¬ ∀ (w0 w1 w2 : World) (as bs : List Act) (id producerId : Uuid) (now : Time),
      w0.Initial → w0.db.OwnersAgree →
      Run.Passed (@World.step .sample) Run.Any (answersCancelled id producerId · ·) w0 as w1 →
      Run.Steps (@World.step .sample) Run.Any w1 bs w2 →
      cancelAnswer w1.db w2.db now id producerId = .cancelled := by
  intro h
  obtain ⟨w, hw, hp⟩ := Run.Passed.exists_of_checked (@World.step .sample) (fun _ _ => true)
    (answersCancelled ⟨7⟩ ⟨2⟩) .empty acceptedExpiring (.cancel 0 ⟨7⟩ ⟨2⟩) passedTooLate
    (fun w => cancelAnswer w.db w.db 9 ⟨7⟩ ⟨2⟩ = .alreadySent) (by decide)
  have hsent := of_decide_eq_true hp
  rw [h .empty w w _ [] ⟨7⟩ ⟨2⟩ 9 World.initial_empty
    (fun r hr => absurd hr (Table.not_mem_empty r)) (hw.mono fun _ _ _ => trivial) .nil] at hsent
  cases hsent

end Messgr
