import Messgr.Keys
import Messgr.Lib.Hex

/-!
# The signature of a webhook

`src/webhook_verify/mod.rs`: the header carries the code of the body in hexadecimal digits. The
decoder reads each pair of characters with `u8::from_str_radix`, which takes a leading `+`, so a
byte below 16 can be written in a third way. A text has one reading exactly if it has no such `+`
(`oneReading_iff`), and the headers that are accepted are the spellings of the code exactly if none
of its bytes is below 16 (`accepted_headers`).
-/

namespace Messgr.Webhook

open List Option Nat Hex

/-! ## The decoder -/

/-- A character that `HeaderValue::to_str` lets through. -/
def isVisibleAscii (c : Char) : Bool := (32 ≤ c.toNat && c.toNat < 127) || c = '\t'

/-- What `HeaderValue::to_str` returns. Each of its characters is one byte. -/
structure HeaderText where
  text : List Char
  visible : text.all isVisibleAscii = true

/-- The digits of `u8::from_str_radix` in base 16; `none` is an invalid digit or an overflow. -/
def parseDigits : List Char → Nat → Option Nat
  | [], value => some value
  | c :: rest, value => do
    let digit ← digitOf c
    if value * 16 + digit < 256 then parseDigits rest (value * 16 + digit) else none

/-- `u8::from_str_radix` in base 16, of a text of visible ASCII. -/
def fromStrRadix : List Char → Option UInt8
  | [] => none
  | ['+'] => none
  | '+' :: digits => (parseDigits digits 0).map UInt8.ofNat
  | digits => (parseDigits digits 0).map UInt8.ofNat

/-- The bytes of the pairs of characters from each second position on. -/
def decodePairs : List Char → Option Bytes
  | a :: b :: rest => do
    let byte ← fromStrRadix [a, b]
    let bytes ← decodePairs rest
    pure (byte :: bytes)
  | _ => some []

/-- Source: `hex_decode`. -/
def hexDecode (s : List Char) : Option Bytes :=
  if s.length % 2 = 0 then decodePairs s else none

/-- `str::strip_prefix` of the scheme. -/
def stripScheme (header : List Char) : List Char :=
  (header.dropPrefix? "sha256=".toList).getD header

/-- Source: `HmacSha256Verifier`, `verify`. HMAC takes keys of every length, and `verify_slice`
compares all of the code. -/
def verify [HmacSha256] (secret body : Bytes) (signatureHeader : List Char) : Bool :=
  match hexDecode (stripScheme signatureHeader) with
  | none => false
  | some signatureBytes => signatureBytes = HmacSha256.mac secret body

/-! ## Pairs -/

section
variable {a b c : Char} {s rest : List Char} {byte : UInt8} {bytes : Bytes}

theorem fromStrRadix_plus : fromStrRadix ['+', b] = (digitOf b).map UInt8.ofNat := by
  show (parseDigits [b] 0).map UInt8.ofNat = _
  cases hb : digitOf b with
  | none => simp [parseDigits, hb]
  | some y =>
    have hy := (digitChar_of_digitOf hb).1
    simp [parseDigits, hb, show y < 256 by omega]

/-- A pair without a sign is decoded digit by digit. -/
theorem fromStrRadix_pair (ha : a ≠ '+') : fromStrRadix [a, b] =
    (digitOf a).bind fun x => (digitOf b).map fun y => UInt8.ofNat (16 * x + y) := by
  have hdigits : fromStrRadix [a, b] = (parseDigits [a, b] 0).map UInt8.ofNat := by
    rw [fromStrRadix]
    · exact nofun
    · exact nofun
    · rintro digits ⟨⟩
      exact ha rfl
  rw [hdigits]
  cases hx : digitOf a with
  | none => simp [parseDigits, hx]
  | some x =>
    cases hy : digitOf b with
    | none => simp [parseDigits, hx, hy]
    | some y =>
      have hx' := (digitChar_of_digitOf hx).1
      have hy' := (digitChar_of_digitOf hy).1
      simp [parseDigits, hx, hy, show x < 256 by omega, show x * 16 + y < 256 by omega, mul_comm]

theorem hexDecode_cons : hexDecode (a :: b :: rest) =
    (fromStrRadix [a, b]).bind fun byte => (hexDecode rest).map (byte :: ·) := by
  have hlen : (a :: b :: rest).length % 2 = rest.length % 2 := by
    simp only [length_cons]
    omega
  rw [hexDecode, hlen, hexDecode]
  split
  · rw [decodePairs]
    cases fromStrRadix [a, b] with
    | none => rfl
    | some byte =>
      cases decodePairs rest with
      | none => rfl
      | some bytes => rfl
  · cases fromStrRadix [a, b] with
    | none => rfl
    | some byte => rfl

/-- What is decoded: pairs of digits, the first of which may be a `+`. -/
def signedPairs : List Char → Bool
  | [] => true
  | [_] => false
  | a :: b :: rest => (a = '+' || isDigit a) && isDigit b && signedPairs rest

theorem isSome_fromStrRadix :
    (fromStrRadix [a, b]).isSome = ((a = '+' || isDigit a) && isDigit b) := by
  by_cases ha : a = '+'
  · subst ha
    rw [fromStrRadix_plus, isSome_map]
    simp [isDigit]
  · rw [fromStrRadix_pair ha]
    cases hx : digitOf a with
    | none => simp [isDigit, hx, ha]
    | some x => simp [isDigit, hx]

theorem isSome_hexDecode (s : List Char) : (hexDecode s).isSome = signedPairs s := by
  induction s using signedPairs.induct with
  | case1 => rfl
  | case2 => rfl
  | case3 a b rest ih =>
    rw [hexDecode_cons, signedPairs, ← isSome_fromStrRadix, ← ih]
    cases fromStrRadix [a, b] with
    | none => rfl
    | some byte => exact isSome_map

/-- A text of digits is decoded if it has pairs of them. -/
theorem signedPairs_of_digits (h : ∀ c ∈ s, isDigit c = true) :
    signedPairs s = true ↔ s.length % 2 = 0 := by
  induction s using signedPairs.induct with
  | case1 => simp [signedPairs]
  | case2 => simp [signedPairs]
  | case3 a b rest ih =>
    obtain ⟨ha, h⟩ := forall_mem_cons.1 h
    obtain ⟨hb, h⟩ := forall_mem_cons.1 h
    rw [signedPairs, ha, hb, Bool.or_true, Bool.and_self, Bool.true_and, ih h, length_cons,
      length_cons]
    omega

/-! ## Spellings -/

theorem digitChar_pair {x y : Nat} (hx : x < 16) (hy : y < 16) :
    encodeByte (UInt8.ofNat (16 * x + y)) = [Nat.digitChar x, Nat.digitChar y] := by
  have hbyte : (UInt8.ofNat (16 * x + y)).toNat = 16 * x + y := by
    rw [UInt8.toNat_ofNat', mod_eq_of_lt (by omega)]
  rw [encodeByte, hbyte, show (16 * x + y) / 16 = x by omega,
    show (16 * x + y) % 16 = y by omega]

/-- A pair of digits is the byte that it spells. -/
theorem encodeByte_of_pair (ha : a ≠ '+') (h : fromStrRadix [a, b] = some byte) :
    encodeByte byte = [a.toLower, b.toLower] ∧ isDigit a = true ∧ isDigit b = true := by
  rw [fromStrRadix_pair ha] at h
  obtain ⟨x, hx, h⟩ := bind_eq_some_iff.1 h
  obtain ⟨y, hy, rfl⟩ := map_eq_some_iff.1 h
  obtain ⟨hx', hax⟩ := digitChar_of_digitOf hx
  obtain ⟨hy', hby⟩ := digitChar_of_digitOf hy
  refine ⟨by rw [digitChar_pair hx' hy', hax, hby], ?_, ?_⟩
  · rw [isDigit, hx]
    rfl
  · rw [isDigit, hy]
    rfl

/-- Without a `+`, what is decoded are digits, and they spell the bytes. -/
theorem encode_of_hexDecode (h : hexDecode s = some bytes) (hs : '+' ∉ s) :
    encode bytes = s.map Char.toLower ∧ ∀ c ∈ s, isDigit c = true := by
  induction s using signedPairs.induct generalizing bytes with
  | case1 =>
    cases h
    exact ⟨rfl, nofun⟩
  | case2 => cases h
  | case3 a b rest ih =>
    rw [hexDecode_cons] at h
    obtain ⟨byte, hbyte, h⟩ := bind_eq_some_iff.1 h
    obtain ⟨bytes, hbytes, rfl⟩ := map_eq_some_iff.1 h
    simp only [mem_cons, not_or] at hs
    obtain ⟨hpair, ha, hb⟩ := encodeByte_of_pair (.symm hs.1) hbyte
    obtain ⟨hrest, hdigits⟩ := ih hbytes hs.2.2
    refine ⟨?_, forall_mem_cons.2 ⟨ha, forall_mem_cons.2 ⟨hb, hdigits⟩⟩⟩
    show encodeByte byte ++ encode bytes = _
    rw [hpair, hrest]
    rfl

theorem fromStrRadix_of_digits (hx : digitOf a = some (byte.toNat / 16))
    (hy : digitOf b = some (byte.toNat % 16)) : fromStrRadix [a, b] = some byte := by
  have hplus : a ≠ '+' := by
    rintro rfl
    cases hx
  have hsum : 16 * (byte.toNat / 16) + byte.toNat % 16 = byte.toNat := by omega
  rw [fromStrRadix_pair hplus, hx, hy, bind_some, map_some, hsum, UInt8.ofNat_toNat]

/-- A spelling of bytes in any case is decoded to them. -/
theorem hexDecode_of_spelling (h : s.map Char.toLower = encode bytes) :
    hexDecode s = some bytes := by
  induction bytes generalizing s with
  | nil =>
    obtain rfl := map_eq_nil_iff.1 h
    rfl
  | cons byte bytes ih =>
    rw [encode_cons] at h
    obtain ⟨a, s', rfl, ha, h⟩ := map_eq_cons_iff.1 h
    obtain ⟨b, rest, rfl, hb, h⟩ := map_eq_cons_iff.1 h
    have hbyte := byte.toNat_lt
    have hx : digitOf a = some (byte.toNat / 16) := by
      rw [← digitOf_toLower, ha, digitOf_digitChar (by omega)]
    have hy : digitOf b = some (byte.toNat % 16) := by
      rw [← digitOf_toLower, hb, digitOf_digitChar (by omega)]
    rw [hexDecode_cons, fromStrRadix_of_digits hx hy, ih h]
    rfl

/-- A `+` is read as a byte below 16. -/
theorem exists_small_byte (h : hexDecode s = some bytes) (hs : '+' ∈ s) :
    ∃ byte ∈ bytes, byte.toNat < 16 := by
  induction s using signedPairs.induct generalizing bytes with
  | case1 => cases hs
  | case2 => cases h
  | case3 a b rest ih =>
    rw [hexDecode_cons] at h
    obtain ⟨byte, hbyte, h⟩ := bind_eq_some_iff.1 h
    obtain ⟨bytes, hbytes, rfl⟩ := map_eq_some_iff.1 h
    by_cases ha : a = '+'
    · subst ha
      rw [fromStrRadix_plus] at hbyte
      obtain ⟨y, hy, rfl⟩ := map_eq_some_iff.1 hbyte
      have hy' := (digitChar_of_digitOf hy).1
      refine ⟨_, mem_cons_self, ?_⟩
      rw [UInt8.toNat_ofNat', mod_eq_of_lt (by omega)]
      exact hy'
    · have hb := (encodeByte_of_pair ha hbyte).2.2
      have hrest : '+' ∈ rest := by
        rcases mem_cons.1 hs with rfl | hs
        · exact absurd rfl ha
        · rcases mem_cons.1 hs with rfl | hs
          · cases hb
          · exact hs
      obtain ⟨byte', hmem, hlt⟩ := ih hbytes hrest
      exact ⟨byte', .tail _ hmem, hlt⟩

/-- The text is decoded exactly if it is pairs of digits, which spell what it is decoded to. -/
structure OneReading (s : List Char) : Prop where
  iff : (hexDecode s).isSome = true ↔ s.length % 2 = 0 ∧ ∀ c ∈ s, isDigit c = true
  spells : ∀ bytes, hexDecode s = some bytes → encode bytes = s.map Char.toLower

/-- Only a sign in a pair leads to a second reading. -/
theorem oneReading_iff : OneReading s ↔ ¬ (signedPairs s = true ∧ '+' ∈ s) := by
  constructor
  · rintro h ⟨hpairs, hplus⟩
    have hdigit := (h.iff.1 (by rw [isSome_hexDecode, hpairs])).2 _ hplus
    cases hdigit
  · intro h
    have hdecoded : ∀ bytes, hexDecode s = some bytes → encode bytes = s.map Char.toLower ∧
        ∀ c ∈ s, isDigit c = true := by
      intro bytes hbytes
      refine encode_of_hexDecode hbytes fun hplus => h ⟨?_, hplus⟩
      rw [← isSome_hexDecode, hbytes]
      rfl
    refine ⟨⟨fun hsome => ?_, fun hs => ?_⟩, fun bytes hbytes => (hdecoded bytes hbytes).1⟩
    · obtain ⟨bytes, hbytes⟩ := isSome_iff_exists.1 hsome
      have hdigits := (hdecoded bytes hbytes).2
      rw [isSome_hexDecode, signedPairs_of_digits hdigits] at hsome
      exact ⟨hsome, hdigits⟩
    · rw [isSome_hexDecode, signedPairs_of_digits hs.2]
      exact hs.1

/-! ## Headers -/

/-- The spellings of bytes in digits of any case, with or without the scheme in front. -/
def Spelling (bytes : Bytes) (header : List Char) : Prop :=
  ∃ digits, digits.map Char.toLower = encode bytes ∧
    (header = digits ∨ header = "sha256=".toList ++ digits)

theorem stripScheme_cases (header : List Char) :
    header = stripScheme header ∨ header = "sha256=".toList ++ stripScheme header := by
  unfold stripScheme
  cases h : header.dropPrefix? "sha256=".toList with
  | none => exact .inl rfl
  | some rest =>
    obtain ⟨p, hp, hpre⟩ := dropPrefix?_eq_some_iff.1 h
    rw [hp, eq_of_beq hpre]
    exact .inr rfl

theorem stripScheme_append : stripScheme ("sha256=".toList ++ s) = s := by
  rw [stripScheme, dropPrefix?_append_of_beq _ (beq_self_eq_true _)]
  rfl

/-- A text without the first letter of the scheme is left as it is. -/
theorem stripScheme_of_not_mem (h : 's' ∉ s) : stripScheme s = s := by
  rcases stripScheme_cases s with hs | hs
  · exact hs.symm
  · rw [hs] at h
    exact absurd (mem_append_left _ (by decide)) h

theorem not_mem_of_spelling (h : s.map Char.toLower = encode bytes)
    (hc : isDigit c.toLower = false) : c ∉ s := by
  intro hmem
  have hdigit : c.toLower ∈ encode bytes := h ▸ mem_map_of_mem hmem
  rw [isDigit_of_mem_encode hdigit] at hc
  cases hc

section
variable [HmacSha256] {secret body : Bytes}

theorem verify_iff : verify secret body s = true ↔
    hexDecode (stripScheme s) = some (HmacSha256.mac secret body) := by
  unfold verify
  split
  · next h => simp [h]
  · next bytes h => simp [h]

/-- Every spelling of the code is accepted. -/
theorem verify_of_spelling (h : Spelling (HmacSha256.mac secret body) s) :
    verify secret body s = true := by
  rw [verify_iff]
  obtain ⟨digits, hdigits, rfl | rfl⟩ := h
  · rw [stripScheme_of_not_mem (not_mem_of_spelling hdigits (by decide))]
    exact hexDecode_of_spelling hdigits
  · rw [stripScheme_append]
    exact hexDecode_of_spelling hdigits

/-- What is accepted without a `+` is a spelling of the code. -/
theorem spelling_of_verify (h : verify secret body s = true) (hs : '+' ∉ stripScheme s) :
    Spelling (HmacSha256.mac secret body) s :=
  ⟨stripScheme s, (encode_of_hexDecode (verify_iff.1 h) hs).1.symm, stripScheme_cases s⟩

end

/-! ## Headers with a sign -/

/-- The digits of a byte, with a `+` in the place of a leading zero. -/
def signedByte (byte : UInt8) : List Char :=
  if byte.toNat < 16 then ['+', Nat.digitChar byte.toNat] else encodeByte byte

def signedEncode (bytes : Bytes) : List Char := bytes.flatMap signedByte

/-- Signed pairs are decoded, too. -/
theorem hexDecode_signedEncode (bytes : Bytes) : hexDecode (signedEncode bytes) = some bytes := by
  induction bytes with
  | nil => rfl
  | cons byte bytes ih =>
    show hexDecode (signedByte byte ++ signedEncode bytes) = _
    unfold signedByte
    split
    · next hlt =>
      show hexDecode ('+' :: _ :: signedEncode bytes) = _
      rw [hexDecode_cons, fromStrRadix_plus, digitOf_digitChar hlt, ih, map_some,
        UInt8.ofNat_toNat]
      rfl
    · have hbyte := byte.toNat_lt
      show hexDecode (_ :: _ :: signedEncode bytes) = _
      rw [hexDecode_cons, fromStrRadix_of_digits (digitOf_digitChar (by omega))
        (digitOf_digitChar (by omega)), ih]
      rfl

theorem mem_signedEncode (h : c ∈ signedEncode bytes) : c = '+' ∨ isDigit c = true := by
  obtain ⟨byte, -, hc⟩ := mem_flatMap.1 h
  unfold signedByte at hc
  split at hc
  · next hlt =>
    simp only [mem_cons, not_mem_nil, or_false] at hc
    rcases hc with rfl | rfl
    · exact .inl rfl
    · rw [isDigit, digitOf_digitChar hlt]
      exact .inr rfl
  · have hmem : c ∈ encode [byte] := by simpa [encode] using hc
    exact .inr (isDigit_of_mem_encode hmem)

theorem visible_of_isDigit (h : isDigit c = true) : isVisibleAscii c = true := by
  unfold isDigit digitOf at h
  unfold isVisibleAscii
  split at h
  · simp; omega
  · split at h
    · simp; omega
    · split at h
      · simp; omega
      · cases h

theorem plus_mem_signedEncode (h : byte ∈ bytes) (hlt : byte.toNat < 16) :
    '+' ∈ signedEncode bytes := by
  refine mem_flatMap.2 ⟨byte, h, ?_⟩
  rw [signedByte, if_pos hlt]
  exact mem_cons_self

/-- A code with a byte below 16 has an accepted header that is no spelling of it. -/
theorem exists_signed_header [HmacSha256] {secret body : Bytes}
    (h : byte ∈ HmacSha256.mac secret body) (hlt : byte.toNat < 16) :
    ∃ header : HeaderText, verify secret body header.text = true ∧
      ¬ Spelling (HmacSha256.mac secret body) header.text := by
  have hvisible : (signedEncode (HmacSha256.mac secret body)).all isVisibleAscii = true := by
    refine all_eq_true.2 fun c hc => ?_
    rcases mem_signedEncode hc with rfl | hdigit
    · decide
    · exact visible_of_isDigit hdigit
  have hs : 's' ∉ signedEncode (HmacSha256.mac secret body) := by
    intro hs
    rcases mem_signedEncode hs with hs | hs
    · cases hs
    · cases hs
  refine ⟨⟨_, hvisible⟩, ?_, ?_⟩
  · rw [verify_iff, stripScheme_of_not_mem hs]
    exact hexDecode_signedEncode _
  · rintro ⟨digits, hdigits, heq | heq⟩
    · dsimp only at heq
      have hplus : '+' ∉ digits := not_mem_of_spelling hdigits (by decide)
      exact hplus (heq ▸ plus_mem_signedEncode h hlt)
    · dsimp only at heq
      have hmem : 's' ∈ "sha256=".toList ++ digits := mem_append_left _ (by decide)
      exact hs (heq ▸ hmem)

end

/-- What the decoder and the verification accept: a text has one reading exactly if it has no `+` in
the place of the first digit of a pair; the headers that are accepted are the spellings of the code
exactly if it has no byte below 16, and without a `+` they always are. -/
theorem accepted_headers [HmacSha256] :
    (∀ s : HeaderText, OneReading s.text ↔ ¬ (signedPairs s.text = true ∧ '+' ∈ s.text)) ∧
    (∀ secret body, (∀ header : HeaderText, verify secret body header.text = true ↔
        Spelling (HmacSha256.mac secret body) header.text) ↔
      ∀ byte ∈ HmacSha256.mac secret body, 16 ≤ byte.toNat) ∧
    ∀ secret body, ∀ header : HeaderText, '+' ∉ header.text →
      (verify secret body header.text = true ↔
        Spelling (HmacSha256.mac secret body) header.text) := by
  refine ⟨fun s => oneReading_iff, fun secret body => ⟨fun h byte hbyte => ?_, fun h header => ?_⟩,
    fun secret body header hplus => ⟨fun hverify => ?_, verify_of_spelling⟩⟩
  · refine Nat.not_lt.1 fun hlt => ?_
    obtain ⟨header, hverify, hnot⟩ := exists_signed_header hbyte hlt
    exact hnot ((h header).1 hverify)
  · refine ⟨fun hverify => spelling_of_verify hverify fun hplus => ?_, verify_of_spelling⟩
    obtain ⟨byte, hbyte, hlt⟩ := exists_small_byte (verify_iff.1 hverify) hplus
    exact Nat.not_lt.2 (h byte hbyte) hlt
  · refine spelling_of_verify hverify fun hmem => hplus ?_
    rcases stripScheme_cases header.text with heq | heq
    · exact heq ▸ hmem
    · rw [heq]
      exact List.mem_append_right _ hmem

/-- A code of 32 bytes 15, for runs on fixed inputs. -/
abbrev fixedCode : HmacSha256 := ⟨fun _ _ => List.replicate 32 15⟩

/-- The text `+f` is decoded as the byte 15, and 32 times that text is accepted for the code of 32
such bytes. -/
theorem signed_header_accepted :
    hexDecode ['+', 'f'] = some [15] ∧ ¬ OneReading ['+', 'f'] ∧
      ∃ header : HeaderText, @verify fixedCode [] [] header.text = true ∧
        ¬ Spelling (@HmacSha256.mac fixedCode [] []) header.text := by
  refine ⟨by decide, fun h => ?_, @exists_signed_header 15 fixedCode [] [] ?_ (by decide)⟩
  · exact oneReading_iff.1 h ⟨by decide, by decide⟩
  · exact List.mem_replicate.2 ⟨by decide, rfl⟩

end Messgr.Webhook
