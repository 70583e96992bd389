import Messgr.SmsSender.Buffers
import Messgr.Tenant.Ledger

/-!
# Where an audit record is

The drains rewrite a file from what they have read of it before, so what is appended in between is
lost (`auditRecord_lost_underDrain`). In every run in which no line is written to a file under a
drain of it, or behind a line without its end, and in which the drain of the pending file can append
what it cannot write, no record is lost (`auditRecord_not_lost`). A drain is verified against the
other threads by what they leave alone: the file that it has read gets no new record, and a record
that is somewhere stays somewhere (`Others`).
-/

namespace Messgr

instance {db : TenantDb} {id : Uuid} {createdAt : Time} : Decidable (db.Has id createdAt) :=
  inferInstanceAs (Decidable (∃ r ∈ db.commsRequest.rows, r.id = id ∧ r.createdAt = createdAt))

namespace TenantDb

variable {db : TenantDb} {now : Time} {a : AuditRecord}

/-- Writing an audit record keeps the requests that are there. -/
theorem mem_writeAuditRecord {r : CommsRequest} (h : r ∈ db.commsRequest) :
    r ∈ (writeAuditRecord db now a).commsRequest :=
  mem_request_writeAuditRecord.2 (.inl h)

/-- After it there is a request with the record's key. -/
theorem has_writeAuditRecord : (writeAuditRecord db now a).Has a.commsRequestId a.createdAt := by
  by_cases hex : ∃ r ∈ db.commsRequest, r.key = (a.request now).key
  · obtain ⟨r, hr, hk⟩ := hex
    exact ⟨r, mem_writeAuditRecord hr, congrArg Prod.snd hk, congrArg Prod.fst hk⟩
  · refine ⟨a.request now, mem_request_writeAuditRecord.2 (.inr ⟨rfl, fun r hr hk => ?_⟩), rfl, rfl⟩
    exact hex ⟨r, hr, hk⟩

end TenantDb

end Messgr

namespace Messgr.SmsSender

open List Bool
open Program (contentLines)

/-! ## The records of a text -/

section
variable {α : Type} [RecordLines α]

/-- The record that a line of a file is. -/
def recordOf : File → List α → Option RecordId
  | .buffer, line => (RecordLines.ofAuditLine line).map auditId
  | .pending, line => (RecordLines.ofPendingLine line).map (·.recordId)

/-- A drain of the file finds the record in the text. -/
def InText (f : File) (text : List (Option α)) (x : RecordId) : Prop :=
  ∃ line ∈ contentLines text, recordOf f line = some x

instance {f : File} {text : List (Option α)} {x : RecordId} : Decidable (InText f text x) :=
  inferInstanceAs (Decidable (∃ line ∈ contentLines text, recordOf f line = some x))

theorem Entry.recordOf_line (e : Entry) : recordOf e.file (e.line : List α) = some e.recordId := by
  cases e with
  | audit r => simp [Entry.file, Entry.line, recordOf, RecordLines.ofAuditLine_auditLine,
      Entry.recordId]
  | pending r => simp [Entry.file, Entry.line, recordOf, RecordLines.ofPendingLine_pendingLine,
      Entry.recordId]

theorem Entry.line_blank (e : Entry) : (e.line : List α).all RecordLines.blank = false := by
  cases e with
  | audit r => exact RecordLines.auditLine_blank r
  | pending r => exact RecordLines.pendingLine_blank r

variable {f : File} {text : List (Option α)} {x : RecordId}

/-- A line end more changes no record. -/
theorem inText_append_end : InText f (text ++ [none]) x ↔ InText f text x := by
  have h : contentLines (text ++ [none]) = contentLines text := by
    rcases Lines.linesFrom_append_end [] text with h | h
    · rw [contentLines, Lines.lines, h]; rfl
    · rw [contentLines, Lines.lines, h, filter_append]
      exact append_nil _
  rw [InText, h, InText]

/-- What is written behind ended lines leaves them. -/
theorem InText.append (h : InText f text x) (hc : Lines.closed text = true)
    (more : List (Option α)) : InText f (text ++ more) x := by
  obtain ⟨line, hl, hx⟩ := h
  refine ⟨line, ?_, hx⟩
  rw [contentLines, Lines.lines_append hc, filter_append]
  exact mem_append_left _ hl

/-- A record whose line was written behind ended lines is found. -/
theorem inText_append_line (e : Entry) (hc : Lines.closed text = true) :
    InText e.file (text ++ e.line.map some) e.recordId := by
  have hb := e.line_blank (α := α)
  have hne : [] ++ (e.line : List α) ≠ [] := by
    intro h
    rw [nil_append] at h
    rw [h] at hb
    cases hb
  have hline : Lines.lines ((e.line : List α).map some) = [e.line] :=
    Lines.linesFrom_map_some [] _ hne
  refine ⟨e.line, ?_, e.recordOf_line⟩
  rw [contentLines, Lines.lines_append hc, filter_append, hline]
  refine mem_append_right _ (mem_filter.2 ⟨mem_singleton.2 rfl, ?_⟩)
  rw [hb]
  rfl

/-- A line that is rewritten is found. -/
theorem inText_unlines {ls : List (List α)} {line : List α} (hl : line ∈ ls)
    (hb : line.all RecordLines.blank = false) (hx : recordOf f line = some x) :
    InText f (Lines.unlines ls) x := by
  refine ⟨line, ?_, hx⟩
  rw [contentLines, Lines.lines_unlines]
  exact mem_filter.2 ⟨hl, by rw [hb]; rfl⟩

end

/-! ## Where a record is -/

namespace Shared

section
variable {α : Type}

@[simp] theorem text_setFile {s : Shared α} {text : List (Option α)} {f : File} :
    (s.setFile text f).text f = text := by cases f <;> rfl

theorem text_setFile_of_ne {s : Shared α} {text : List (Option α)} {f g : File} (h : g ≠ f) :
    (s.setFile text f).text g = s.text g := by
  cases f <;> cases g <;> first | rfl | exact absurd rfl h

@[simp] theorem tenants_setFile {s : Shared α} {text : List (Option α)} {f : File} :
    (s.setFile text f).tenants = s.tenants := by cases f <;> rfl

@[simp] theorem draining_setFile {s : Shared α} {text : List (Option α)} {f : File} :
    (s.setFile text f).draining = s.draining := by cases f <;> rfl

@[simp] theorem appended_setFile {s : Shared α} {text : List (Option α)} {f : File} :
    (s.setFile text f).appended = s.appended := by cases f <;> rfl

/-- The record is committed as a request of its tenant. -/
def Committed (s : Shared α) (x : RecordId) : Prop :=
  (s.tenants x.tenantId).Has x.commsRequestId x.createdAt

instance {s : Shared α} {x : RecordId} : Decidable (s.Committed x) :=
  inferInstanceAs (Decidable ((s.tenants x.tenantId).Has x.commsRequestId x.createdAt))

theorem committed_write {s : Shared α} (now : Time) (r : AuditRecord) :
    (s.write now r).Committed (auditId r) := by
  simp only [Committed, write, auditId, if_true]
  exact TenantDb.has_writeAuditRecord

end

section
variable {α : Type} [RecordLines α]

/-- The record is in a file. -/
def InFile (s : Shared α) (f : File) (x : RecordId) : Prop := InText f (s.text f) x

instance {s : Shared α} {f : File} {x : RecordId} : Decidable (s.InFile f x) :=
  inferInstanceAs (Decidable (InText f (s.text f) x))

/-- What the pending file need not keep. -/
def Stored (s : Shared α) (x : RecordId) : Prop := s.Committed x ∨ s.InFile .buffer x

/-- The record is committed or in one of the files. -/
def Safe (s : Shared α) (x : RecordId) : Prop := s.Stored x ∨ s.InFile .pending x

/-- What a drain of the file may drop. -/
def Moved (s : Shared α) : File → RecordId → Prop
  | .buffer, x => s.Committed x
  | .pending, x => s.Stored x

end

end Shared

/-! ## Rules -/

section
variable {α : Type} [RecordLines α]

/-- What the threads other than `t` may do. -/
structure Others (t : Nat) (s s' : Shared α) : Prop where
  committed : ∀ x, s.Committed x → s'.Committed x
  stored : ∀ x, s.Stored x → s'.Stored x
  safe : ∀ x, s.Safe x → s'.Safe x
  own : ∀ f, (t, f) ∈ s'.draining ↔ (t, f) ∈ s.draining
  still : ∀ f, (t, f) ∈ s.draining → ∀ x, s'.InFile f x → s.InFile f x

theorem Others.refl (t : Nat) (s : Shared α) : Others t s s :=
  ⟨fun _ h => h, fun _ h => h, fun _ h => h, fun _ => .rfl, fun _ _ _ h => h⟩

theorem Others.trans {t : Nat} {s1 s2 s3 : Shared α} (h1 : Others t s1 s2)
    (h2 : Others t s2 s3) : Others t s1 s3 where
  committed x h := h2.committed x (h1.committed x h)
  stored x h := h2.stored x (h1.stored x h)
  safe x h := h2.safe x (h1.safe x h)
  own f := (h2.own f).trans (h1.own f)
  still f hf x h := h1.still f hf x (h2.still f ((h1.own f).2 hf) x h)

theorem Others.moved {t : Nat} {s s' : Shared α} (h : Others t s s') {f : File} {x : RecordId}
    (hx : s.Moved f x) : s'.Moved f x := by
  cases f with
  | buffer => exact h.committed x hx
  | pending => exact h.stored x hx

/-- No record is lost, and a file is drained by one thread at a time. -/
structure Inv (s : Shared α) : Prop where
  safe : ∀ f x, (f, x) ∈ s.appended → s.Safe x
  one : ∀ t u f, (t, f) ∈ s.draining → (u, f) ∈ s.draining → t = u

/-- No line is written to a file under a drain of it, or behind a line without its end, and what
the drain of the pending file did not commit it writes to the buffer file. -/
def orderly (t : Nat) (s : Shared α) : Stmt α → Event → Bool
  | .openAppend e, .fails => (t, .pending) ∉ s.draining || s.Committed e.recordId
  | .writeLine e, event =>
    Lines.closed (s.text e.file) && !s.draining.any (·.2 = e.file) &&
      match event with
      | .cut written =>
        (t, .pending) ∉ s.draining || s.Committed e.recordId || (e.line : List α).length ≤ written
      | _ => true
  | _, _ => true

variable [HmacSha256] [Aes256Gcm]

variable (α) in
def rules : Rules (system α) where
  inv := Inv
  others := Others
  refl := Others.refl
  trans _ _ _ _ := Others.trans
  considered t _ c e s := orderly t s c e = true

variable (α) in
/-- `Rules.Wp` under these rules. -/
abbrev Wp {β : Type} := (rules α).Wp (β := β)

end

/-! ## Statements -/

section
variable {α : Type} [RecordLines α] {t u : Nat} {s s' : Shared α}

/-- A step that changes no drain keeps the invariant with the records. -/
theorem Inv.of_others (hinv : Inv s) (h : Others u s s') (hd : s'.draining = s.draining)
    (ha : ∀ f x, (f, x) ∈ s'.appended → (f, x) ∈ s.appended ∨ s'.Safe x) : Inv s' where
  safe f x hx := (ha f x hx).elim (fun hx => h.safe x (hinv.safe f x hx)) id
  one t u f := by rw [hd]; exact hinv.one t u f

/-- A write to the database. -/
theorem Others.write (now : Time) (r : AuditRecord) : Others u s (s.write now r) := by
  have hc : ∀ x, s.Committed x → (s.write now r).Committed x := by
    rintro x ⟨q, hq, hid⟩
    refine ⟨q, ?_, hid⟩
    simp only [Shared.write]
    split
    · exact TenantDb.mem_writeAuditRecord hq
    · exact hq
  have hs : ∀ x, s.Stored x → (s.write now r).Stored x := fun x h => h.imp_left (hc x)
  exact ⟨hc, hs, fun x h => h.imp_left (hs x), fun _ => .rfl, fun _ _ _ h => h⟩

/-- A file with more records, which nobody drains unless they are the same. -/
theorem Others.setFile {f : File} {text : List (Option α)}
    (hgrows : ∀ x, s.InFile f x → InText f text x)
    (hstill : (∀ v, (v, f) ∉ s.draining) ∨ ∀ x, InText f text x → s.InFile f x) :
    Others u s (s.setFile text f) := by
  have hfile : ∀ g x, s.InFile g x → (s.setFile text f).InFile g x := by
    intro g x hx
    by_cases hg : g = f
    · subst hg
      rw [Shared.InFile, Shared.text_setFile]
      exact hgrows x hx
    · rwa [Shared.InFile, Shared.text_setFile_of_ne hg]
  have hc : ∀ x, s.Committed x → (s.setFile text f).Committed x := by
    intro x hx
    rwa [Shared.Committed, Shared.tenants_setFile]
  have hs : ∀ x, s.Stored x → (s.setFile text f).Stored x :=
    fun x h => h.imp (hc x) (hfile _ x)
  refine ⟨hc, hs, fun x h => h.imp (hs x) (hfile _ x), fun g => by simp, fun g hg x hx => ?_⟩
  by_cases hgf : g = f
  · subst hgf
    rw [Shared.InFile, Shared.text_setFile] at hx
    exact (hstill.resolve_left fun h => h u hg) x hx
  · rwa [Shared.InFile, Shared.text_setFile_of_ne hgf] at hx

end

section
variable {α : Type} [RecordLines α] {t : Nat} {s s' : Shared α}

/-- The last step of a drain: what the file had is elsewhere or still in it. -/
theorem Others.rewrite {u : Nat} {f : File} {text : List (Option α)} (hinv : Inv s) (hu : u ≠ t)
    (hdrains : (t, f) ∈ s.draining) (hkept : ∀ x, s.InFile f x → s.Moved f x ∨ InText f text x) :
    Others u s { s.setFile text f with draining := s.draining.filter (· ≠ (t, f)) } := by
  have hc : ∀ x, s.Committed x → ({ s.setFile text f with
      draining := s.draining.filter (· ≠ (t, f)) } : Shared α).Committed x := by
    intro x hx
    simpa [Shared.Committed] using hx
  have hother : ∀ g, g ≠ f → ∀ x, ({ s.setFile text f with
      draining := s.draining.filter (· ≠ (t, f)) } : Shared α).InFile g x ↔ s.InFile g x := by
    intro g hg x
    show InText g ((s.setFile text f).text g) x ↔ _
    rw [Shared.text_setFile_of_ne hg]
    rfl
  have hself : ∀ x, InText f text x → ({ s.setFile text f with
      draining := s.draining.filter (· ≠ (t, f)) } : Shared α).InFile f x := by
    intro x hx
    show InText f ((s.setFile text f).text f) x
    rwa [Shared.text_setFile]
  have hs : ∀ x, s.Stored x → ({ s.setFile text f with
      draining := s.draining.filter (· ≠ (t, f)) } : Shared α).Stored x := by
    intro x hx
    cases f with
    | buffer =>
      refine hx.elim (fun h => .inl (hc x h)) fun h => ?_
      exact (hkept x h).imp (hc x) (hself x)
    | pending => exact hx.imp (hc x) (hother .buffer nofun x).2
  refine ⟨hc, hs, fun x hx => ?_, fun g => ?_, fun g hg x hx => ?_⟩
  · cases f with
    | buffer => exact hx.imp (hs x) (hother .pending nofun x).2
    | pending =>
      refine hx.elim (fun h => .inl (hs x h)) fun h => ?_
      exact (hkept x h).imp (hs x) (hself x)
  · simp [hu]
  · have hgf : g ≠ f := fun h => hu (hinv.one u t f (h ▸ hg) hdrains)
    exact (hother g hgf x).1 hx

end

/-! ## Programs -/

section
variable {α : Type} [RecordLines α] [HmacSha256] [Aes256Gcm]
variable {t : Nat} {call : Call} {s : Shared α} {β : Type}
variable {Q : Except SmsSenderError β → Shared α → Prop} {c : Stmt α} {more : List (Option α)}

/-- A statement that is like one of the others' to every thread. -/
theorem wp_stmt {f : c.Answer → Program α β} (P : c.Answer → Shared α → Prop)
    (hc : ∀ s1 e s2 a, Others t s s1 → Inv s1 → orderly t s1 c e = true →
      exec t s1 c e = some (s2, a) →
      Inv s2 ∧ (∀ u, Others u s1 s2) ∧ ∃ b, a = .ok b ∧ P b s2)
    (h : ∀ b s', Others t s s' → P b s' → Wp α t call Q (f b) s') :
    Wp α t call Q (.call c f) s := by
  refine .stmt fun s1 e s2 a h1 hinv ho hx => ?_
  obtain ⟨hinv2, hothers, b, rfl, hb⟩ := hc s1 e s2 a h1 hinv ho hx
  exact ⟨hinv2, fun u _ => hothers u, h b s2 (.trans h1 (hothers t)) hb⟩

/-- The statements that read, ask or draw something. -/
def Stmt.quiet : Stmt α → Bool
  | .newUuid | .now | .nonce | .isEnabled _ | .send _ _ _ | .getOrOpen _ | .getOrCreateDek _ _ =>
    true
  | _ => false

omit [HmacSha256] [Aes256Gcm] in
theorem exec_quiet {e : Event} {s' : Shared α} {a : Except SmsSenderError c.Answer}
    (hq : c.quiet = true) (hx : exec t s c e = some (s', a)) : s' = s ∧ ∃ b, a = .ok b := by
  cases c with
  | newUuid | now | nonce | isEnabled _ | send _ _ _ => cases e <;> cases hx; exact ⟨rfl, _, rfl⟩
  | getOrOpen _ | getOrCreateDek _ _ => cases e <;> cases hx <;> exact ⟨rfl, _, rfl⟩
  | _ => cases hq

theorem wp_quiet {f : c.Answer → Program α β} (hq : c.quiet = true)
    (h : ∀ b s', Others t s s' → Wp α t call Q (f b) s') : Wp α t call Q (Prog.stmt c >>= f) s := by
  refine wp_stmt (c := c) (fun _ _ => True) (fun s1 e s2 a _ hinv _ hx => ?_)
    fun b s' hs _ => h b s' hs
  obtain ⟨rfl, b, rfl⟩ := exec_quiet hq hx
  exact ⟨hinv, fun u => .refl u _, b, rfl, trivial⟩

/-- A write to the database that is reported as done is. -/
theorem wp_writeAuditRecord {r : AuditRecord} {f : Bool → Program α β}
    (h : ∀ b s', Others t s s' → (b = true → s'.Committed (auditId r)) →
      Wp α t call Q (f b) s') : Wp α t call Q (Program.writeAuditRecord r >>= f) s := by
  refine wp_stmt (c := .writeAuditRecord r) (fun b s' => b = true → s'.Committed (auditId r))
    (fun s1 e s2 a _ hinv _ hx => ?_) h
  have hw : ∀ now, Inv (s1.write now r) := fun now =>
    hinv.of_others (u := 0) (.write now r) rfl fun _ _ h => .inl h
  cases e with
  | time now =>
    cases hx
    exact ⟨hw now, fun _ => .write now r, _, rfl, fun _ => Shared.committed_write now r⟩
  | lost now =>
    cases hx
    exact ⟨hw now, fun _ => .write now r, _, rfl, nofun⟩
  | fails =>
    cases hx
    exact ⟨hinv, fun u => .refl u _, _, rfl, nofun⟩
  | _ => cases hx

/-- The record of an entry is where its append was to put it, or further. -/
def Entry.Kept (s : Shared α) : Entry → Prop
  | .audit r => s.Stored (auditId r)
  | .pending r => s.Safe r.recordId

omit [HmacSha256] [Aes256Gcm] in
theorem Entry.Kept.others {e : Entry} {s' : Shared α} (h : e.Kept s) (hs : Others t s s') :
    e.Kept s' := by
  cases e with
  | audit r => exact hs.stored _ h
  | pending r => exact hs.safe _ h

omit [HmacSha256] [Aes256Gcm] in
theorem Entry.Kept.safe {e : Entry} (h : e.Kept s) : s.Safe e.recordId := by
  cases e with
  | audit r => exact .inl h
  | pending r => exact h

omit [HmacSha256] [Aes256Gcm] in
theorem Entry.kept_of_committed {e : Entry} (h : s.Committed e.recordId) : e.Kept s := by
  cases e with
  | audit r => exact .inl h
  | pending r => exact .inl (.inl h)

omit [HmacSha256] [Aes256Gcm] in
theorem Entry.kept_of_inFile {e : Entry} (h : s.InFile e.file e.recordId) : e.Kept s := by
  cases e with
  | audit r => exact .inr h
  | pending r => exact .inr h

omit [HmacSha256] [Aes256Gcm] in
/-- A line, or a part of it, behind ended lines of a file that nobody drains. -/
theorem Others.extend {u : Nat} {f : File} (hc : Lines.closed (s.text f) = true)
    (hd : ∀ v, (v, f) ∉ s.draining) : Others u s (s.extend f more) :=
  .setFile (fun _ h => h.append hc more) (.inl hd)

omit [HmacSha256] [Aes256Gcm] in
theorem Inv.extend {f : File} (hinv : Inv s) (h : Others t s (s.extend f more)) :
    Inv (s.extend f more) :=
  hinv.of_others h Shared.draining_setFile fun _ _ hx => .inl (by
    rwa [Shared.extend, Shared.appended_setFile] at hx)

/-- The file is opened, unless the record need not be appended. -/
theorem wp_openAppend {e : Entry} {f : Bool → Program α β}
    (h : ∀ b s', Others t s s' → (b = false → (t, .pending) ∈ s'.draining → e.Kept s') →
      Wp α t call Q (f b) s') : Wp α t call Q (Program.openAppend e >>= f) s := by
  refine wp_stmt (c := .openAppend e)
    (fun b s' => b = false → (t, File.pending) ∈ s'.draining → e.Kept s')
    (fun s1 event s2 a _ hinv ho hx => ?_) h
  cases event with
  | done =>
    cases hx
    have hothers : ∀ u, Others u s1 (s1.extend e.file []) := fun u =>
      .setFile (fun x hx => by rwa [append_nil]) (.inr fun x hx => by
        rwa [append_nil] at hx)
    exact ⟨hinv.extend (hothers t), hothers, _, rfl, nofun⟩
  | fails =>
    cases hx
    refine ⟨hinv, fun u => .refl u _, _, rfl, fun _ hd => ?_⟩
    simp only [orderly, or_eq_true, decide_eq_true_eq] at ho
    exact Entry.kept_of_committed (ho.resolve_left fun h => h hd)
  | _ => cases hx

/-- The line is written, unless the record need not be appended. -/
theorem wp_writeLine {e : Entry} {f : Bool → Program α β}
    (h : ∀ b s', Others t s s' → (b = true ∨ (t, .pending) ∈ s'.draining → e.Kept s') →
      Wp α t call Q (f b) s') : Wp α t call Q (Program.writeLine e >>= f) s := by
  refine wp_stmt (c := .writeLine e)
    (fun b s' => b = true ∨ (t, File.pending) ∈ s'.draining → e.Kept s')
    (fun s1 event s2 a _ hinv ho hx => ?_) h
  simp only [orderly, and_eq_true, not_eq_true', any_eq_false, decide_eq_true_eq] at ho
  obtain ⟨⟨hc, hd⟩, hcut⟩ := ho
  have hothers : ∀ more u, Others u s1 (s1.extend e.file more) := fun more u =>
    .extend hc fun v hv => hd _ hv rfl
  have hline : (s1.extend e.file (e.line.map some)).InFile e.file e.recordId := by
    rw [Shared.InFile, Shared.extend, Shared.text_setFile]
    exact inText_append_line e hc
  cases event with
  | done =>
    cases hx
    exact ⟨hinv.extend (hothers _ t), hothers _, _, rfl, fun _ => Entry.kept_of_inFile hline⟩
  | cut written =>
    cases hx
    refine ⟨hinv.extend (hothers _ t), hothers _, _, rfl, fun hdrains => ?_⟩
    have hdrains := hdrains.resolve_left nofun
    rw [Shared.extend, Shared.draining_setFile] at hdrains
    simp only [or_eq_true, decide_eq_true_eq] at hcut
    rcases hcut with (hn | hcom) | hlen
    · exact absurd hdrains hn
    · exact Entry.kept_of_committed ((hothers _ t).committed _ hcom)
    · rw [take_of_length_le (by simpa using hlen)]
      exact Entry.kept_of_inFile hline
  | _ => cases hx

theorem wp_writeEnd {e : Entry} {f : Bool → Program α β}
    (h : ∀ b s', Others t s s' → Wp α t call Q (f b) s') :
    Wp α t call Q (Program.writeEnd e >>= f) s := by
  refine wp_stmt (c := .writeEnd e) (fun _ _ => True) (fun s1 event s2 a _ hinv _ hx => ?_)
    fun b s' hs _ => h b s' hs
  cases event with
  | done =>
    cases hx
    have hothers : ∀ u, Others u s1 (s1.extend e.file [none]) := fun u =>
      .setFile (fun x => inText_append_end.2) (.inr fun x => inText_append_end.1)
    exact ⟨hinv.extend (hothers t), hothers, _, rfl, trivial⟩
  | fails =>
    cases hx
    exact ⟨hinv, fun u => .refl u _, _, rfl, trivial⟩
  | _ => cases hx

/-- An append is reported as done when its record is safe. -/
theorem wp_syncAll {e : Entry} {f : Bool → Program α β} (he : e.Kept s)
    (h : ∀ b s', Others t s s' → Wp α t call Q (f b) s') :
    Wp α t call Q (Program.syncAll e >>= f) s := by
  refine wp_stmt (c := .syncAll e) (fun _ _ => True) (fun s1 event s2 a h1 hinv _ hx => ?_)
    fun b s' hs _ => h b s' hs
  cases event with
  | done =>
    cases hx
    refine ⟨⟨fun f x hx => ?_, hinv.one⟩, fun u => ⟨fun _ h => h, fun _ h => h, fun _ h => h,
      fun _ => .rfl, fun _ _ _ h => h⟩, _, rfl, trivial⟩
    rcases mem_cons.1 hx with hx | hx
    · cases hx
      exact (he.others h1).safe
    · exact hinv.safe f x hx
  | fails =>
    cases hx
    exact ⟨hinv, fun u => .refl u _, _, rfl, trivial⟩
  | _ => cases hx

/-- What a drain of the pending file appends is kept. -/
theorem append_spec (e : Entry) : Wp α t call
      (Returns fun _ s' => Others t s s' ∧ ((t, .pending) ∈ s.draining → e.Kept s'))
      (Program.append e) s := by
  refine wp_openAppend fun b s1 h1 hopen => ?_
  cases b with
  | false =>
    exact .ret fun s' hs => ⟨h1.trans hs, fun hd =>
      (hopen rfl ((h1.own _).2 hd)).others hs⟩
  | true =>
    refine wp_writeLine fun b s2 h2 hline => ?_
    have h2' := h1.trans h2
    have hkept : ∀ s', Others t s2 s' → (t, .pending) ∈ s.draining → e.Kept s' :=
      fun s' hs hd => (hline (.inr ((h2'.own _).2 hd))).others hs
    cases b with
    | false => exact .ret fun s' hs => ⟨h2'.trans hs, hkept s' hs⟩
    | true =>
      refine wp_writeEnd fun b s3 h3 => ?_
      cases b with
      | false =>
        exact .ret fun s' hs => ⟨h2'.trans (h3.trans hs), hkept s' (h3.trans hs)⟩
      | true =>
        refine wp_syncAll (f := pure) ((hline (.inl rfl)).others h3) fun b s4 h4 => ?_
        refine .ret fun s' hs => ?_
        have hs' := h3.trans (h4.trans hs)
        exact ⟨h2'.trans hs', hkept s' hs'⟩

/-- Under a drain, what is not written is buffered. -/
theorem persistOrBuffer_spec (r : AuditRecord) : Wp α t call
      (Returns fun _ s' => Others t s s' ∧ ((t, .pending) ∈ s.draining → s'.Stored (auditId r)))
      (Program.persistOrBuffer r) s := by
  refine wp_writeAuditRecord fun b s1 h1 hw => ?_
  cases b with
  | true =>
    exact .ret fun s' hs => ⟨h1.trans hs, fun _ => .inl (hs.committed _ (hw rfl))⟩
  | false =>
    refine (append_spec (.audit r)).seq (fun b s2 h2 => ?_) fun _ _ h => h
    refine .ret fun s' hs => ⟨h1.trans (h2.1.trans hs), fun hd => ?_⟩
    exact hs.stored _ (h2.2 ((h1.own _).2 hd))

/-! ### The handler -/

theorem computeDestinationCrypto_spec (tenant : TenantContext) (id customerId : Uuid)
    (destination : String) :
    Wp α t call (Returns fun _ s' => Others t s s')
      (Program.computeDestinationCrypto tenant id customerId destination) s := by
  refine wp_quiet (c := .getOrCreateDek _ _) rfl fun dek s1 h1 => ?_
  cases dek with
  | none => exact .ret fun s' hs => h1.trans hs
  | some dek =>
    refine wp_quiet (c := .nonce) rfl fun n s2 h2 => ?_
    split
    · exact .ret fun s' hs => h1.trans (h2.trans hs)
    · exact .ret fun s' hs => h1.trans (h2.trans hs)

theorem persistSendOutcome_spec (tenant : TenantContext) (id : Uuid) (createdAt : Time)
    (customerId producerId : Uuid) (destination : String) (finalStatus : Status)
    (providerRef : String) (providerStatus : Option String) :
    Wp α t call (Returns fun _ _ => True)
      (Program.persistSendOutcome tenant id createdAt customerId producerId destination finalStatus
        providerRef providerStatus) s := by
  refine (computeDestinationCrypto_spec tenant id customerId destination).seq
    (fun crypto s1 _ => ?_) fun _ _ h => h
  cases crypto with
  | some crypto =>
    refine (persistOrBuffer_spec _).mono fun a s h => ?_
    cases a with
    | ok _ => trivial
    | error _ => exact h
  | none =>
    refine wp_quiet (c := .nonce) rfl fun n s2 _ => ?_
    split
    · exact (append_spec _).seq (fun b s3 _ => .ret fun _ _ => trivial) fun _ _ h => h
    · exact .ret fun _ _ => trivial

/-- A request keeps the rules. -/
theorem sendOtp_spec (producer : ProducerContext) (body : SendOtpRequest) :
    Wp α t call (fun _ _ => True) (Program.sendOtp producer body) s := by
  refine wp_quiet (c := .newUuid) rfl fun id s1 _ => ?_
  refine wp_quiet (c := .now) rfl fun createdAt s2 _ => ?_
  refine wp_quiet (c := .isEnabled _) rfl fun enabled s3 _ => ?_
  cases enabled with
  | true =>
    refine wp_quiet (c := .send _ _ _) rfl fun sent s4 _ => ?_
    cases sent with
    | ok outcome =>
      exact (persistSendOutcome_spec _ _ _ _ _ _ _ _ _).seq
        (fun _ _ _ => .ret fun _ _ => trivial) fun _ _ _ => trivial
    | error err =>
      exact (persistSendOutcome_spec _ _ _ _ _ _ _ _ _).seq
        (fun _ _ _ => .fail fun _ _ => trivial) fun _ _ _ => trivial
  | false =>
    exact (persistOrBuffer_spec _).seq (fun _ _ _ => .fail fun _ _ => trivial) fun _ _ _ => trivial

/-! ### The drains -/

/-- The loop: a record of the lines that are left was moved, or remains. -/
theorem drainLines_spec {ρ : Type} {ofLine : List α → Option ρ} {keep : ρ → Program α Bool}
    {f : File} (recordId : ρ → RecordId) (hkeep : ∀ r s, (t, f) ∈ s.draining → Wp α t call
      (Returns fun b s' => Others t s s' ∧ (b = false → s'.Moved f (recordId r))) (keep r) s)
    (lines : List (List α)) (remaining : List ρ) (hd : (t, f) ∈ s.draining) :
    Wp α t call
      (Returns fun rest s' => Others t s s' ∧ (∀ r ∈ remaining, r ∈ rest) ∧
        ∀ line ∈ lines, ∀ r, ofLine line = some r → s'.Moved f (recordId r) ∨ r ∈ rest)
      (Program.drainLines ofLine keep lines remaining) s := by
  induction lines generalizing remaining s with
  | nil => exact .ret fun s' hs => ⟨hs, fun _ h => h, nofun⟩
  | cons line lines ih =>
    rw [Program.drainLines]
    cases hl : ofLine line with
    | none =>
      refine (ih remaining hd).mono fun a s' h => ?_
      cases a with
      | error _ => exact h
      | ok rest =>
        refine ⟨h.1, h.2.1, forall_mem_cons.2 ⟨fun r hr => ?_, h.2.2⟩⟩
        rw [hl] at hr
        cases hr
    | some record =>
      refine (hkeep record s hd).seq (fun b s1 h1 => ?_) fun _ _ h => h
      have hd1 := (h1.1.own f).2 hd
      cases b with
      | true =>
        refine (ih (remaining ++ [record]) hd1).mono fun a s' h => ?_
        cases a with
        | error _ => exact h
        | ok rest =>
          refine ⟨h1.1.trans h.1, fun r hr => h.2.1 r (mem_append_left _ hr),
            forall_mem_cons.2 ⟨fun r hr => .inr ?_, h.2.2⟩⟩
          cases hl.symm.trans hr
          exact h.2.1 _ (mem_append_right _ (.head _))
      | false =>
        refine (ih remaining hd1).mono fun a s' h => ?_
        cases a with
        | error _ => exact h
        | ok rest =>
          refine ⟨h1.1.trans h.1, h.2.1, forall_mem_cons.2 ⟨fun r hr => .inl ?_, h.2.2⟩⟩
          cases hl.symm.trans hr
          exact h.1.moved (h1.2 rfl)

/-- A drain that reads a file that is there is one of its drains from then on. -/
theorem wp_read {f : File} {g : Option (List (Option α)) → Program α β}
    (hnone : ∀ s', Wp α t call Q (g none) s')
    (hsome : ∀ s', (t, f) ∈ s'.draining → Wp α t call Q (g (some (s'.text f))) s') :
    Wp α t call Q (Program.read f >>= g) s := by
  refine .stmt fun s1 e s2 a _ hinv _ hx => ?_
  cases e with
  | done =>
    simp only [system, exec] at hx
    split at hx
    · cases hx
    next hfree =>
    have hfree : ∀ u, (u, f) ∉ s1.draining := by simpa using hfree
    split at hx
    · cases hx
      exact ⟨hinv, fun u _ => .refl u s1, hnone s1⟩
    · next text htext =>
      cases hx
      refine ⟨⟨hinv.safe, fun u v g hu hv => ?_⟩, fun u hu => ⟨fun _ h => h, fun _ h => h,
        fun _ h => h, fun g => ?_, fun _ _ _ h => h⟩, ?_⟩
      · rcases mem_cons.1 hu with hu | hu <;> rcases mem_cons.1 hv with hv | hv
        · cases hu; cases hv; rfl
        · cases hu; exact absurd hv (hfree v)
        · cases hv; exact absurd hu (hfree u)
        · exact hinv.one u v g hu hv
      · simp [hu]
      · have h := hsome { s1 with draining := (t, f) :: s1.draining } (.head _)
        have ht : ({ s1 with draining := (t, f) :: s1.draining } : Shared α).text f = text := by
          show (s1.file f).getD [] = text
          rw [htext]
          rfl
        rwa [ht] at h
  | _ => cases hx

/-- One pass over a file: what it drops was moved. -/
theorem drain_spec {ρ : Type} {f : File} {ofLine : List α → Option ρ} {toLine : ρ → List α}
    {keep : ρ → Program α Bool} (recordId : ρ → RecordId)
    (hof : ∀ line, recordOf f line = (ofLine line).map recordId)
    (hto : ∀ r, ofLine (toLine r) = some r) (hblank : ∀ r, (toLine r).all RecordLines.blank = false)
    (hkeep : ∀ r s, (t, f) ∈ s.draining → Wp α t call
      (Returns fun b s' => Others t s s' ∧ (b = false → s'.Moved f (recordId r))) (keep r) s) :
    Wp α t call (fun _ _ => True) (Program.drain f ofLine toLine keep) s := by
  refine wp_read (fun s' => .ret fun _ _ => trivial) fun s1 hd => ?_
  refine (drainLines_spec recordId hkeep _ [] hd).seq (fun rest s2 h2 => ?_) fun _ _ _ => trivial
  obtain ⟨h2, -, hrest⟩ := h2
  refine .stmt fun s3 e s4 a h3 hinv _ hx => ?_
  have h3' := h2.trans h3
  have hd3 : (t, f) ∈ s3.draining := (h3'.own f).2 hd
  -- what the file has now it had when it was read
  have hkept : ∀ x, s3.InFile f x →
      s3.Moved f x ∨ InText f (Lines.unlines (rest.map toLine)) x := by
    intro x hx
    obtain ⟨line, hl, hrec⟩ := h3'.still f hd x hx
    rw [hof] at hrec
    obtain ⟨r, hr, rfl⟩ := Option.map_eq_some_iff.1 hrec
    rcases hrest line hl r hr with hm | hr
    · exact .inl (h3.moved hm)
    · refine .inr (inText_unlines (mem_map_of_mem hr) (hblank r) ?_)
      rw [hof, hto]
      rfl
  cases e with
  | done =>
    cases hx
    refine ⟨⟨fun g x hx => ?_, fun u v g hu hv => ?_⟩, fun u hu => .rewrite hinv hu hd3 hkept,
      fun _ _ => trivial⟩
    · rw [Shared.appended_setFile] at hx
      exact (Others.rewrite hinv (Nat.succ_ne_self t) hd3 hkept).safe x (hinv.safe g x hx)
    · exact hinv.one u v g (mem_filter.1 hu).1 (mem_filter.1 hv).1
  | _ => cases hx

theorem retryWrite_spec (r : AuditRecord) : Wp α t call
      (Returns fun b s' => Others t s s' ∧ (b = false → s'.Moved .buffer (auditId r)))
      (Program.retryWrite r) s := by
  refine wp_quiet (c := .getOrOpen _) rfl fun pepper s1 h1 => ?_
  cases pepper with
  | none => exact .ret fun s' hs => ⟨h1.trans hs, nofun⟩
  | some pepper =>
    refine wp_writeAuditRecord fun written s2 h2 hw => ?_
    refine .ret fun s' hs => ⟨h1.trans (h2.trans hs), fun hb => ?_⟩
    exact hs.committed _ (hw (by simpa using hb))

/-- A pending record that goes is elsewhere. -/
theorem retryCrypto_spec (r : PendingAuditRecord) (hd : (t, .pending) ∈ s.draining) :
    Wp α t call
      (Returns fun b s' => Others t s s' ∧ (b = false → s'.Moved .pending r.recordId))
      (Program.retryCrypto r) s := by
  refine wp_quiet (c := .getOrOpen _) rfl fun pepper s1 h1 => ?_
  cases pepper with
  | none => exact .ret fun s' hs => ⟨h1.trans hs, nofun⟩
  | some pepper =>
  refine wp_quiet (c := .getOrCreateDek _ _) rfl fun dek s2 h2 => ?_
  have h2 := h1.trans h2
  cases dek with
  | none => exact .ret fun s' hs => ⟨h2.trans hs, nofun⟩
  | some dek =>
  dsimp only
  split
  · exact .ret fun s' hs => ⟨h2.trans hs, nofun⟩
  split
  · exact .ret fun s' hs => ⟨h2.trans hs, nofun⟩
  refine wp_quiet (c := .nonce) rfl fun n s3 h3 => ?_
  have h3 := h2.trans h3
  split
  · exact .ret fun s' hs => ⟨h3.trans hs, nofun⟩
  refine (persistOrBuffer_spec _).seq (fun _ s4 h4 => ?_) fun _ _ h => h
  refine .ret fun s' hs => ⟨h3.trans (h4.1.trans hs), fun _ => ?_⟩
  exact hs.stored _ (h4.2 ((h3.own _).2 hd))

/-- Every call keeps the rules. -/
theorem body_spec : Wp α t call (fun _ _ => True) ((system α).body call) s := by
  cases call with
  | sendOtp producer body =>
    exact (sendOtp_spec producer body).seq (fun _ _ _ => .ret fun _ _ => trivial)
      fun _ _ _ => trivial
  | drainBuffer =>
    exact (drain_spec auditId (fun _ => rfl) RecordLines.ofAuditLine_auditLine
      RecordLines.auditLine_blank fun r _ _ => retryWrite_spec r).seq
        (fun _ _ _ => .ret fun _ _ => trivial) fun _ _ _ => trivial
  | drainPending =>
    exact (drain_spec (·.recordId) (fun _ => rfl) RecordLines.ofPendingLine_pendingLine
      RecordLines.pendingLine_blank fun r _ => retryCrypto_spec r).seq
        (fun _ _ _ => .ret fun _ _ => trivial) fun _ _ _ => trivial

end

/-! ## Runs -/

section
variable {α : Type} [RecordLines α]

/-- The step is a statement that is `orderly`, or none. -/
def orderlyMove (w : State α) : Move → Bool
  | .step t e =>
    match w.threads[t]? with
    | some ⟨_, .call c _⟩ => orderly t w.shared c e
    | _ => true
  | _ => true

variable [HmacSha256] [Aes256Gcm]

theorem allows_of_orderlyMove {w : State α} {a : Move} (h : orderlyMove w a = true) :
    (rules α).Allows (fun _ _ _ _ => True) w a where
  start i s' _ hx hinv := by
    cases hx
    exact ⟨hinv, fun u => .refl u _, body_spec⟩
  env x := nomatch x
  step t e i c k ha hth := by
    subst ha
    rw [orderlyMove, hth] at h
    exact h

/-- In every run in which no line is written to a file under a drain of it or behind a line without
its end, and in which the drain of the pending file appends what it does not commit, every record
whose append was reported as done is committed or in one of the files. -/
theorem auditRecord_not_lost {s : Shared α} (hdraining : s.draining = [])
    (happended : s.appended = []) {as : List Move} {w : State α}
    (h : Run.Steps (system α).step (orderlyMove · ·) ⟨s, []⟩ as w) {f : File} {x : RecordId}
    (hx : (f, x) ∈ w.shared.appended) :
    w.shared.Committed x ∨ w.shared.InFile .buffer x ∨ w.shared.InFile .pending x := by
  have hinv : Inv s := by
    refine ⟨fun f x hx => ?_, fun t u f ht => ?_⟩
    · rw [happended] at hx
      cases hx
    · rw [hdraining] at ht
      cases ht
  have hstart : (rules α).Holds (fun _ _ _ _ => True) (⟨s, []⟩ : State α) :=
    ⟨hinv, fun t th hth => by cases hth⟩
  have hw := Rules.Holds.run (fun _ _ => allows_of_orderlyMove) h hstart
  exact or_assoc.1 (hw.inv.safe f x hx)

end

/-- A hash of the length of a key. -/
abbrev fixedHmac : HmacSha256 := ⟨fun _ _ => List.replicate 32 0⟩

abbrev sampleSystem : Sys (Shared (AuditRecord ⊕ PendingAuditRecord)) Call Event Empty
    (@Stmt.Answer (AuditRecord ⊕ PendingAuditRecord)) SmsSenderError (Option Uuid) :=
  @system _ .sample fixedHmac .sample

/-- No file, no record and no thread. -/
def sampleState : State (AuditRecord ⊕ PendingAuditRecord) := ⟨.empty, []⟩

/-- The record of the request that drew `id`. -/
def sampleId (id : Uuid) : RecordId := ⟨⟨1⟩, 0, id⟩

/-- A request that sends its code, and the answers up to its record. -/
def Move.send (t : Nat) (id : Uuid) : List Move :=
  [.start (.sendOtp ⟨⟨2⟩, ⟨⟨1⟩, []⟩⟩ ⟨⟨3⟩, "+41", "123456"⟩), .step t (.uuid id),
   .step t (.time 0), .step t (.flag true), .step t (.sent (.ok ⟨"ref", "ok"⟩))]

/-- The answers to an append that succeeds. -/
def Move.append (t : Nat) : List Move :=
  [.step t .done, .step t .done, .step t .done, .step t .done]

/-- A request whose record cannot be written and is buffered. -/
def Move.buffered (t : Nat) (id : Uuid) : List Move :=
  Move.send t id ++
    ([.step t (.dek (List.replicate 32 0)), .step t (.nonce .sample), .step t .fails] :
      List Move) ++ Move.append t

/-- A code is sent while Vault is down. The drain of the pending file encrypts its record and cannot
write it, and the drain of the buffer file writes it. -/
def recovered : List Move :=
  Move.send 0 ⟨7⟩ ++ ([.step 0 .fails, .step 0 (.nonce .sample)] : List Move) ++ Move.append 0 ++
    ([.start .drainPending, .step 1 .done, .step 1 (.opened []),
      .step 1 (.dek (List.replicate 32 0)), .step 1 (.nonce .sample), .step 1 .fails] :
      List Move) ++ Move.append 1 ++
    ([.step 1 .done, .start .drainBuffer, .step 2 .done, .step 2 (.opened []),
      .step 2 (.time 1), .step 2 .done] : List Move)

/-- The record has been in both files. -/
theorem auditRecord_not_lost_recovered :
    ∃ w, Run.Steps sampleSystem.step (@orderlyMove _ .sample · ·) sampleState recovered w ∧
      (.pending, sampleId ⟨7⟩) ∈ w.shared.appended ∧
      (w.shared.Committed (sampleId ⟨7⟩) ∨
        @Shared.InFile _ .sample w.shared .buffer (sampleId ⟨7⟩) ∨
        @Shared.InFile _ .sample w.shared .pending (sampleId ⟨7⟩)) := by
  obtain ⟨w, hw, hp⟩ := Run.Steps.exists_of_checked sampleSystem.step (@orderlyMove _ .sample)
    sampleState recovered (fun w => w.shared.appended =
      [(.buffer, sampleId ⟨7⟩), (.pending, sampleId ⟨7⟩)]) (by decide +kernel)
  have hmem : (.pending, sampleId ⟨7⟩) ∈ w.shared.appended := by
    rw [of_decide_eq_true hp]
    exact .tail _ (.head _)
  exact ⟨w, hw, hmem, @auditRecord_not_lost _ .sample fixedHmac .sample _ rfl rfl _ w hw _ _ hmem⟩

/-- One record is buffered and read by the drain; a second is buffered before the rewrite. -/
def appendedUnderDrain : List Move :=
  Move.buffered 0 ⟨7⟩ ++ ([.start .drainBuffer, .step 1 .done] : List Move) ++
    Move.buffered 2 ⟨8⟩ ++
    ([.step 1 (.opened []), .step 1 (.time 1), .step 1 .done] : List Move)

/-- Its append was reported as done, and it is nowhere. -/
theorem auditRecord_lost_underDrain :
    ∃ w, Run.Steps sampleSystem.step Run.Any sampleState appendedUnderDrain w ∧
      (.buffer, sampleId ⟨8⟩) ∈ w.shared.appended ∧
      ¬ (w.shared.Committed (sampleId ⟨8⟩) ∨
        @Shared.InFile _ .sample w.shared .buffer (sampleId ⟨8⟩) ∨
        @Shared.InFile _ .sample w.shared .pending (sampleId ⟨8⟩)) := by
  obtain ⟨w, hw, hp⟩ := Run.Steps.exists_of_exec sampleSystem.step sampleState appendedUnderDrain
    (fun w => (.buffer, sampleId ⟨8⟩) ∈ w.shared.appended ∧
      ¬ (w.shared.Committed (sampleId ⟨8⟩) ∨
        @Shared.InFile _ .sample w.shared .buffer (sampleId ⟨8⟩) ∨
        @Shared.InFile _ .sample w.shared .pending (sampleId ⟨8⟩))) (by decide +kernel)
  exact ⟨w, hw, of_decide_eq_true hp⟩

end Messgr.SmsSender
