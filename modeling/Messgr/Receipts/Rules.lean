import Messgr.Receipts.Advance
import Messgr.Receipts.Effects

/-!
# What holds of the tables of receipts

`Sound` is what holds of the tables and the log in every run: rows of the holding tables are copies
that were inserted once, and what is promoted or handed to `orphan_event` was listed and matched
before. It rests on what a run knows when it makes a statement (`Known`), so it is an invariant of
programs: `rules` are the rules they are verified by, and `wp_call` the step of that verification.
-/

namespace Messgr.Receipts

open List Table

/-! ## Soundness -/

/-- The key of the event that a promotion inserts. -/
abbrev Promotion.eventKey (x : Promotion) : Time × Uuid × Status × String :=
  (x.receipt.occurredAt, x.matched.commsRequestId, x.receipt.status, x.receipt.providerRef)

/-- The receipt was listed and matched by the run that promotes it. -/
def Promotion.Known (s : Inbox) (x : Promotion) : Prop :=
  ⟨x.held, x.receipt.toPendingReceipt⟩ ∈ s.born ∧
    .matched x.run x.receipt.toPendingReceipt (some x.matched) ∈ s.log

/-- What an observation says of the tables. -/
def Obs.Justified (s : Inbox) : Obs → Prop
  | .accepted p => ∃ q, ⟨.staging, q⟩ ∈ s.born ∧ q.key = p.key
  | .matched _ _ (some m) =>
    ∃ r ∈ s.db.commsRequest, r.key = m.key ∧ r.destinationHmac = m.destinationHmac
  | .promoted x => x.Known s ∧ ∃ e ∈ s.db.commsEvent, e.key = x.eventKey
  | .orphaned _ p => ⟨.staging, p⟩ ∈ s.born ∧ ∃ q, ⟨.orphan, q⟩ ∈ s.born ∧ q.key = p.key
  | _ => True

/-- What holds of the tables and the log. -/
structure Sound (s : Inbox) : Prop where
  staging : ∀ r ∈ s.staging, ⟨.staging, r.toPendingReceipt⟩ ∈ s.born
  orphans : ∀ r ∈ s.orphans, ⟨.orphan, r.toPendingReceipt⟩ ∈ s.born
  log : ∀ o ∈ s.log, o.Justified s

/-- What a run knows when it makes a statement. -/
def Known (t : Nat) (s : Inbox) : Stmt → Prop
  | .promote held x m ciphertext => Promotion.Known s ⟨t, held, x, m, ciphertext, 0⟩
  | .toOrphan row => ⟨.staging, row.toPendingReceipt⟩ ∈ s.born
  | _ => True

/-- Copies and observations are only added. -/
structure Grew (s s' : Inbox) : Prop where
  born : ∀ c ∈ s.born, c ∈ s'.born
  log : ∀ o ∈ s.log, o ∈ s'.log

section
variable {s s1 s2 s' : Inbox} {t : Nat} {u : Option Nat} {A : Allowed} {c : Stmt}
variable {o : Obs} {id : Uuid}

theorem Grew.refl (s : Inbox) : Grew s s := ⟨fun _ h => h, fun _ h => h⟩

theorem Grew.trans (h1 : Grew s s1) (h2 : Grew s1 s2) : Grew s s2 :=
  ⟨fun c hc => h2.born c (h1.born c hc), fun o ho => h2.log o (h1.log o ho)⟩

theorem Known.grew (h : Known t s c) (hg : Grew s s') : Known t s' c := by
  cases c with
  | promote held x m ciphertext => exact ⟨hg.born _ h.1, hg.log _ h.2⟩
  | toOrphan row => exact hg.born _ h
  | _ => trivial

theorem Change.grew (h : Change A s u s') : Grew s s' := by
  refine ⟨fun c hc => h.born hc, fun o ho => ?_⟩
  obtain ⟨l, hl, -⟩ := h.log
  rw [hl]
  exact mem_append_left l ho

theorem grew_note (s : Inbox) (o : Obs) : Grew s (s.note o) :=
  ⟨fun _ h => h, fun _ h => mem_append_left _ h⟩

theorem Changes.grew (h : Changes A s u s') : Grew s s' := by
  obtain ⟨s1, h1, rfl | ⟨t, id, -, rfl⟩⟩ := h
  · exact h1.grew
  · exact h1.grew.trans (grew_note _ _)

/-- What is justified stays so. -/
theorem Obs.Justified.grew (h : o.Justified s) (hg : Grew s s') (hk : s.db.Keeps s'.db) :
    o.Justified s' := by
  cases o with
  | matched t p m =>
    cases m with
    | none => trivial
    | some m =>
      obtain ⟨r, hr, hkey, hd⟩ := h
      obtain ⟨r', hr', hkey', hd'⟩ := hk.requests r hr
      exact ⟨r', hr', hkey'.trans hkey, hd'.trans hd⟩
  | promoted x =>
    obtain ⟨hx, e, he, hkey⟩ := h
    exact ⟨⟨hg.born _ hx.1, hg.log _ hx.2⟩, e, hk.events e he, hkey⟩
  | orphaned t p =>
    obtain ⟨hp, q, hq, hkey⟩ := h
    exact ⟨hg.born _ hp, q, hg.born _ hq, hkey⟩
  | accepted p =>
    obtain ⟨q, hq, hkey⟩ := h
    exact ⟨q, hg.born _ hq, hkey⟩
  | _ => trivial

/-- A change that adds no rows and no observation that says something of the tables. -/
theorem Sound.grow (h : Sound s) (hc : Change A s u s')
    (hst : ∀ r ∈ s'.staging, r ∈ s.staging ∨ ⟨.staging, r.toPendingReceipt⟩ ∈ s'.born)
    (hor : ∀ r ∈ s'.orphans, (∃ r0 ∈ s.orphans, r0.toPendingReceipt = r.toPendingReceipt) ∨
      ⟨.orphan, r.toPendingReceipt⟩ ∈ s'.born)
    (hlog : ∀ o ∈ s'.log, o ∈ s.log ∨ o.Justified s') : Sound s' where
  staging r hr := (hst r hr).elim (fun hr => hc.born (h.staging r hr)) id
  orphans r hr := (hor r hr).elim (fun ⟨r0, hr0, heq⟩ => heq ▸ hc.born (h.orphans r0 hr0)) id
  log o ho := (hlog o ho).elim (fun ho => (h.log o ho).grew hc.grew hc.keeps) id

theorem Sound.note (h : Sound s) (o : Obs) (ho : o.Justified s) : Sound (s.note o) := by
  have hg := grew_note s o
  refine ⟨h.staging, h.orphans, fun o' ho' => ?_⟩
  rcases mem_append.1 ho' with ho' | ho'
  · exact (h.log o' ho').grew hg (.refl _)
  · rw [mem_singleton.1 ho']
    exact ho.grew hg (.refl _)

theorem justified_matched (s : Inbox) (t : Nat) (p : PendingReceipt) (providerRef : String) :
    (Obs.matched t p (findMatch s.db providerRef)).Justified s := by
  cases hm : findMatch s.db providerRef with
  | none => trivial
  | some m =>
    obtain ⟨-, -, -, r, hr, -, rfl⟩ := findMatch_some hm
    exact ⟨r, hr, rfl, rfl⟩

theorem mem_remove_staging (held : Holding) {r : StagingRow} (h : r ∈ (s.remove id held).staging) :
    r ∈ s.staging := by
  cases held with
  | staging => exact (mem_delete.1 h).1
  | orphan => exact h

theorem mem_remove_orphans (held : Holding) {r : OrphanRow} (h : r ∈ (s.remove id held).orphans) :
    r ∈ s.orphans := by
  cases held with
  | staging => exact h
  | orphan => exact (mem_delete.1 h).1

/-- A pass makes none of the observations that say something. -/
theorem justified_of_mem_passObs {i : Nat} {row : OutboxRow} {env : Env} {db : TenantDb}
    {stage : Stage} (h : o ∈ s.passObs i row env db stage) : o.Justified s' := by
  rcases mem_passObs h with ⟨r, -, -, -, rfl⟩ | ⟨-, rfl⟩ | ⟨_, _, _, -, -, rfl⟩ <;> trivial

theorem justified_of_snoc {o' : Obs} (ho : o.Justified s') (h : o' ∈ s.log ++ [o]) :
    o' ∈ s.log ∨ o'.Justified s' := by
  rcases mem_append.1 h with h | h
  · exact .inl h
  · rw [mem_singleton.1 h]
    exact .inr ho

/-- A change keeps soundness when what is promoted or handed over is known. -/
theorem Sound.change (h : Sound s) (hc : Change A s u s') (hP : ∀ x, A.promote x → x.Known s)
    (hO : ∀ p, A.orphan p → ⟨.staging, p⟩ ∈ s.born) : Sound s' := by
  have hc' := hc
  cases hc with
  | same => exact h
  | listed | agedOut => exact h.note _ trivial
  | matched t p => exact h.note _ (justified_matched s t p _)
  | promoted x hx =>
    refine h.grow hc' (fun r hr => .inl (mem_remove_staging _ hr))
      (fun r hr => .inl ⟨r, mem_remove_orphans _ hr, rfl⟩) fun _ => justified_of_snoc
        ⟨⟨hc'.grew.born _ (hP x hx).1, hc'.grew.log _ (hP x hx).2⟩, ?_⟩
    show ∃ e ∈ (promoteMatch _ _ _ _ _).commsEvent, _
    rw [TenantDb.promoteMatch_commsEvent]
    exact TenantDb.exists_insertEvent _ _
  | orphaned hx done =>
    obtain ⟨born, orphans, hb, hor, rfl⟩ := toOrphan_eq done
    refine h.grow hc' (fun r hr => .inl (mem_remove_staging .staging hr))
      (fun r hr => ?_) fun _ => justified_of_snoc
        ⟨hc'.born (hO _ hx), _, ((insert?_some hb).2 _).2 (.inr rfl), rfl⟩
    rcases ((insert?_some hor).2 r).1 hr with hr | rfl
    · exact .inl ⟨r, hr, rfl⟩
    · exact .inr (((insert?_some hb).2 _).2 (.inr rfl))
  | missed t id =>
    refine h.grow hc' (fun r hr => .inl hr) (fun r hr => ?_) fun _ => justified_of_snoc trivial
    rcases mem_countMiss.1 hr with ⟨hr, -⟩ | ⟨r0, hr0, -, rfl⟩
    · exact .inl ⟨r, hr, rfl⟩
    · exact .inl ⟨r0, hr0, rfl⟩
  | deleted t id cap =>
    rcases deleteMissed_eq s t id cap with heq | ⟨r, hr, -, -, heq⟩
    · rwa [heq]
    · rw [heq] at hc' ⊢
      exact h.grow hc' (fun r hr => .inl hr)
        (fun r hr => .inl ⟨r, mem_remove_orphans .orphan hr, rfl⟩)
        fun _ => justified_of_snoc trivial
  | stored done =>
    rcases insertStaging_eq done with ⟨⟨r, hr, hkey⟩, rfl⟩ | ⟨staging, born, hst, hb, rfl⟩
    · exact h.note _ ⟨_, h.staging r hr, hkey⟩
    · refine h.grow hc' (fun r hr => ?_) (fun r hr => .inl ⟨r, hr, rfl⟩)
        fun _ => justified_of_snoc ⟨_, ((insert?_some hb).2 _).2 (.inr rfl), rfl⟩
      rcases ((insert?_some hst).2 r).1 hr with hr | rfl
      · exact .inl hr
      · exact .inr (((insert?_some hb).2 _).2 (.inr rfl))
  | suppressed | retired =>
    exact h.grow hc' (fun r hr => .inl hr) (fun r hr => .inl ⟨r, hr, rfl⟩)
      fun _ => justified_of_snoc trivial
  | passed hp done =>
    obtain ⟨cfg, row, stage, -, rfl⟩ := pass_eq done
    refine h.grow hc' (fun r hr => .inl hr) (fun r hr => .inl ⟨r, hr, rfl⟩) fun o ho => ?_
    rcases mem_append.1 ho with ho | ho
    · exact .inl ho
    · exact .inr (justified_of_mem_passObs ho)
  | _ =>
    exact h.grow hc' (fun r hr => .inl hr) (fun r hr => .inl ⟨r, hr, rfl⟩) fun o ho => .inl ho

/-- Rows of `webhook_receipt_staging` have distinct ids. -/
theorem Sound.staging_ids (h : Sound s) : (s.staging.rows.map (·.id)).Nodup := by
  refine .map_on (fun r hr r' hr' hid => ?_) (.of_map _ s.staging.nodup)
  have heq := eq_of_key (h.staging r hr) (h.staging r' hr') hid
  refine eq_of_key hr hr' ?_
  rw [(Copy.mk.inj heq).2]

theorem sound_start (db : TenantDb) (partitions : List (Time × Time)) :
    Sound (.start db partitions) :=
  ⟨fun r hr => absurd hr (not_mem_empty r), fun r hr => absurd hr (not_mem_empty r),
    fun _ h => absurd h not_mem_nil⟩

theorem Sound.of_failed (h : Sound (s.note (.failed t id))) : Sound s := by
  refine ⟨h.staging, h.orphans, fun o ho => ?_⟩
  have hj := h.log o (mem_append_left _ ho)
  cases o with
  | promoted x =>
    refine ⟨⟨hj.1.1, ?_⟩, hj.2⟩
    refine (mem_append.1 hj.1.2).resolve_right fun hm => ?_
    cases mem_singleton.1 hm
  | matched t p m => cases m <;> exact hj
  | _ => exact hj

/-- A failure that is noted says nothing of the tables. -/
theorem Sound.changes (h : Sound s) (hc : Changes A s u s') (hP : ∀ x, A.promote x → x.Known s)
    (hO : ∀ p, A.orphan p → ⟨.staging, p⟩ ∈ s.born) : Sound s' := by
  obtain ⟨s1, h1, rfl | ⟨t, id, -, rfl⟩⟩ := hc
  · exact h.change h1 hP hO
  · exact (h.change h1 hP hO).note _ trivial

end

/-! ## Rules -/

/-- What the others do to a run: they add, and observe nothing of it. -/
structure Others (t : Nat) (s s' : Inbox) : Prop extends Grew s s' where
  own : s'.own t = s.own t

section
variable {s s1 s2 s' : Inbox} {t : Nat} {u : Option Nat} {A : Allowed} {l : List Obs}

theorem Others.refl (t : Nat) (s : Inbox) : Others t s s := ⟨.refl s, rfl⟩

theorem Others.trans (h1 : Others t s s1) (h2 : Others t s1 s2) : Others t s s2 :=
  ⟨h1.toGrew.trans h2.toGrew, h2.own.trans h1.own⟩

theorem own_append (h : s'.log = s.log ++ l) (hl : ∀ o ∈ l, o.run = some t) :
    s'.own t = s.own t ++ l := by
  have hself : l.filter (·.run = some t) = l :=
    filter_eq_self.2 fun o ho => by simpa using hl o ho
  rw [Inbox.own, h, filter_append, hself]
  rfl

theorem own_note {o : Obs} (ho : o.run = some t) : (s.note o).own t = s.own t ++ [o] :=
  own_append rfl fun p hp => by rwa [mem_singleton.1 hp]

theorem own_append_of_ne (h : s'.log = s.log ++ l) (hl : ∀ o ∈ l, o.run = u) (hu : u ≠ some t) :
    s'.own t = s.own t := by
  have hnil : l.filter (·.run = some t) = [] :=
    filter_eq_nil_iff.2 fun o ho => by simpa [hl o ho] using hu
  rw [Inbox.own, h, filter_append, hnil, append_nil]
  rfl

/-- The log grows by observations of the run that changes something. -/
theorem Changes.log (h : Changes A s u s') : ∃ l, s'.log = s.log ++ l ∧ ∀ o ∈ l, o.run = u := by
  obtain ⟨s1, h1, rfl | ⟨t, id, rfl, rfl⟩⟩ := h
  · exact h1.log
  · obtain ⟨l, hl, hrun⟩ := h1.log
    refine ⟨l ++ [.failed t id], ?_, fun o ho => ?_⟩
    · rw [Inbox.note, hl, append_assoc]
    · rcases mem_append.1 ho with ho | ho
      · exact hrun o ho
      · rw [mem_singleton.1 ho]
        rfl

theorem Changes.others (h : Changes A s u s') (hu : u ≠ some t) : Others t s s' := by
  obtain ⟨l, hl, hrun⟩ := h.log
  exact ⟨h.grew, own_append_of_ne hl hrun hu⟩

end

/-- The statements considered: of which run and job, how they end and in which state. -/
abbrev Considered := Nat → Job → Stmt → Event → Inbox → Prop

section
variable [Aes256Gcm]

/-- The rules: soundness, and that each run observes for itself. -/
def rules (C : Considered) : Rules system where
  inv := Sound
  others := Others
  refl := Others.refl
  trans _ _ _ _ := Others.trans
  considered := C

/-- `Rules.Wp` under these rules. -/
abbrev Wp (C : Considered) {β : Type} := (rules C).Wp (β := β)

variable {s s' : Inbox} {t : Nat} {i : Job} {e : Event} {c : Stmt} {C : Considered}

/-- What a statement does, when the run knows what it must. -/
theorem exec_keeps {a : Except JobError c.Answer} (hk : Known t s c) (h : Sound s)
    (hx : exec t s c e = some (s', a)) :
    Sound s' ∧ (∀ v, v ≠ t → Others v s s') ∧ Grew s s' ∧
      ∃ l, s'.log = s.log ++ l ∧ s'.own t = s.own t ++ l := by
  have hc : Changes ⟨fun x => x.Known s, fun p => ⟨.staging, p⟩ ∈ s.born, False⟩
      s (some t) s' := by
    refine changes_of_exec (fun x hp _ _ => ?_) (fun row hrow => ?_) hx
    · cases c <;> cases hp
      exact hk
    · subst hrow
      exact hk
  obtain ⟨l, hl, hrun⟩ := hc.log
  refine ⟨h.changes hc (fun _ hx => hx) fun _ hp => hp, fun v hv => hc.others ?_, hc.grew, l, hl,
    own_append hl hrun⟩
  simpa using Ne.symm hv

/-- One statement of a program, made with what the run knows. -/
theorem wp_call {α : Type} {Q : Except JobError α → Inbox → Prop} {f : c.Answer → Program α}
    (hk : Known t s c)
    (h : ∀ s1 e s2 a, Others t s s1 → Sound s1 → C t i c e s1 → exec t s1 c e = some (s2, a) →
      match a with
      | .ok b => Wp C t i Q (f b) s2
      | .error err => ∀ s3, Others t s2 s3 → Q (.error err) s3) : Wp C t i Q (.call c f) s := by
  refine .stmt fun s1 e s2 a ho hs hc hx => ?_
  obtain ⟨hsound, hothers, -⟩ := exec_keeps (hk.grew ho.toGrew) hs hx
  have hnext := h s1 e s2 a ho hs hc hx
  cases a with
  | ok | error => exact ⟨hsound, hothers, hnext⟩

end

end Messgr.Receipts
