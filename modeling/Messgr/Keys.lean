import Messgr.Base

/-!
# Keys and ciphers

`src/keystore.rs`, `src/key_cache.rs`, `src/encryption.rs` and `src/destination_hmac.rs`. Vault,
AES-256-GCM and HMAC-SHA-256 are not part of the repository. They are classes here: of Vault, what
unwrapping a wrapped key gives; of the cipher, that decryption inverts encryption (`decrypt_encrypt`
is that law for the columns); of the hash nothing. Of the cache's `LruCache` it is known that a key
put takes the place of its entry; a hit is then what was put last for the key
(`KeyCache.lastPut_of_get`).
-/

namespace Messgr

open List

/-! ## The key store -/

/-- Vault Transit: the key that a wrapped key of a mount is unwrapped to. Source:
`keystore.rs`, `KeyStore`, `unwrap_dek`. -/
class KeyStore where
  unwrapDek : String → String → Option Bytes

/-- Source: `keystore.rs`. -/
structure Dek where
  plaintext : Bytes
  wrapped : String
deriving DecidableEq

/-- Whether `create_dek` of a mount may answer `dek`: unwrapping gives back what was wrapped.
Source: `keystore.rs`, `create_dek`. -/
def KeyStore.creates [KeyStore] (mount : String) (dek : Dek) : Bool :=
  unwrapDek mount dek.wrapped = some dek.plaintext

/-- A key store that tells keys apart by the length of their wrapped text, for fixed inputs. -/
abbrev KeyStore.sample : KeyStore :=
  ⟨fun _ wrapped => some (List.replicate 32 (UInt8.ofNat wrapped.length))⟩

/-- The key that `KeyStore.sample` unwraps to `n`. -/
def Dek.sample (n : Nat) : Dek :=
  ⟨List.replicate 32 (UInt8.ofNat n), String.ofList (List.replicate n 'w')⟩

/-! ## The cache of unwrapped keys -/

/-- Source: `key_cache.rs`, `CacheEntry`, with its key. -/
structure CacheEntry where
  key : Uuid
  plaintext : Bytes
  cachedAt : Time
deriving DecidableEq

/-- The `LruCache` of the `lru` crate, by what it does to its entries: a key that is put takes the
place of its entry, and nothing else comes in. Which entries are evicted, and when, is left open. -/
structure LruCache where
  put : List CacheEntry → CacheEntry → List CacheEntry
  /-- The entries after a lookup that found the key. -/
  get : List CacheEntry → Uuid → List CacheEntry
  pop : List CacheEntry → Uuid → List CacheEntry
  mem_put : ∀ {l e x}, x ∈ put l e → x = e ∨ x ∈ l ∧ x.key ≠ e.key
  mem_get : ∀ {l key x}, x ∈ get l key → x ∈ l
  mem_pop : ∀ {l key x}, x ∈ pop l key → x ∈ l

/-- An `LruCache` that never evicts, for runs on fixed inputs. -/
def LruCache.sample : LruCache where
  put l e := e :: l.filter (·.key ≠ e.key)
  get l _ := l
  pop l key := l.filter (·.key ≠ key)
  mem_put := by simp
  mem_get := id
  mem_pop h := (mem_filter.1 h).1

/-- Source: `key_cache.rs`. -/
structure KeyCache where
  inner : LruCache
  ttl : Time
  entries : List CacheEntry

namespace KeyCache

/-- The cache on a new `LruCache`. Source: `key_cache.rs`. -/
def new (inner : LruCache) (ttl : Time) : KeyCache := ⟨inner, ttl, []⟩

/-- A hit within `ttl`; a stale hit is evicted. Source: `key_cache.rs`. -/
def get (c : KeyCache) (now : Time) (key : Uuid) : Option Bytes × KeyCache :=
  match c.entries.find? (·.key = key) with
  | some e =>
    let found := c.inner.get c.entries key
    if now - e.cachedAt < c.ttl then (some e.plaintext, { c with entries := found })
    else (none, { c with entries := c.inner.pop found key })
  | none => (none, c)

/-- Source: `key_cache.rs`. -/
def put (c : KeyCache) (now : Time) (key : Uuid) (plaintext : Bytes) : KeyCache :=
  { c with entries := c.inner.put c.entries ⟨key, plaintext, now⟩ }

/-- What is looked up was there, put less than `ttl` ago; looking it up puts nothing in. -/
theorem get_eq {c c' : KeyCache} {now : Time} {key : Uuid} {hit : Option Bytes}
    (h : c.get now key = (hit, c')) :
    (∀ p, hit = some p → ∃ t, ⟨key, p, t⟩ ∈ c.entries ∧ now - t < c.ttl) ∧
      (∀ e ∈ c'.entries, e ∈ c.entries) ∧ c'.ttl = c.ttl := by
  unfold get at h
  split at h
  · next e hf =>
    have hkey : e.key = key := by simpa using find?_some hf
    split at h
    · next hfresh =>
      cases h
      refine ⟨fun p hp => ⟨e.cachedAt, ?_, hfresh⟩, fun _ => c.inner.mem_get, rfl⟩
      cases hp
      exact hkey ▸ mem_of_find?_eq_some hf
    · cases h
      exact ⟨nofun, fun _ he => c.inner.mem_get (c.inner.mem_pop he), rfl⟩
  · cases h
    exact ⟨nofun, fun _ he => he, rfl⟩

/-! ## The cache through its calls -/

/-- A call, which has the lock of the cache. -/
inductive Op
  | get (now : Time) (key : Uuid)
  | put (now : Time) (key : Uuid) (plaintext : Bytes)

def apply (c : KeyCache) : Op → KeyCache
  | .get now key => (c.get now key).2
  | .put now key plaintext => c.put now key plaintext

/-- The cache after calls, of which the last comes first. -/
def run (c : KeyCache) : List Op → KeyCache
  | [] => c
  | op :: ops => (c.run ops).apply op

/-- What was put last for a key. -/
def lastPut (key : Uuid) : List Op → Option CacheEntry
  | [] => none
  | .put now k p :: ops => if k = key then some ⟨k, p, now⟩ else lastPut key ops
  | .get _ _ :: ops => lastPut key ops

section
variable {inner : LruCache} {ttl now : Time} {ops : List Op} {key : Uuid} {p : Bytes}

/-- No call changes the `ttl`. -/
theorem run_ttl (c : KeyCache) (ops : List Op) : (c.run ops).ttl = c.ttl := by
  induction ops with
  | nil => rfl
  | cons op ops ih =>
    cases op with
    | put => exact ih
    | get now key => exact (get_eq rfl).2.2.trans ih

/-- An entry is what was put last for its key. -/
theorem lastPut_of_mem {e : CacheEntry} (he : e ∈ ((new inner ttl).run ops).entries) :
    lastPut e.key ops = some e := by
  induction ops with
  | nil => cases he
  | cons op ops ih =>
    cases op with
    | get now key => exact ih ((get_eq rfl).2.1 e he)
    | put now key p =>
      rcases LruCache.mem_put _ he with rfl | ⟨he, hne⟩
      · exact if_pos rfl
      · rw [lastPut, if_neg hne.symm]
        exact ih he

/-- A hit is what was put last for the key, less than `ttl` ago, whatever was evicted meanwhile. -/
theorem lastPut_of_get (h : (((new inner ttl).run ops).get now key).1 = some p) :
    ∃ t, lastPut key ops = some ⟨key, p, t⟩ ∧ now - t < ttl := by
  obtain ⟨t, he, hfresh⟩ := (get_eq rfl).1 p h
  rw [run_ttl] at hfresh
  exact ⟨t, lastPut_of_mem he, hfresh⟩

theorem lastPut_of_get_second :
    ∃ t, lastPut ⟨1⟩ [.put 2 ⟨1⟩ [2], .put 0 ⟨1⟩ [1]] = some ⟨⟨1⟩, [2], t⟩ ∧ 4 - t < 3 :=
  @lastPut_of_get .sample 3 _ _ _ _ (by decide)

end

end KeyCache

/-! ## The encryption of a column -/

/-- The length of a nonce. Source: `encryption.rs`, `NONCE_LEN`. -/
def nonceLen : Nat := 12

/-- A nonce that was generated. -/
abbrev Nonce := { n : Bytes // n.length = nonceLen }

/-- A nonce, for runs on fixed inputs. -/
def Nonce.sample : Nonce := ⟨List.replicate nonceLen 0, rfl⟩

/-- AES-256-GCM of the `aes_gcm` crate: encryption and decryption under a key, with a nonce and
associated data. -/
class Aes256Gcm where
  encrypt : Bytes → Nonce → Bytes → Bytes → Option Bytes
  decrypt : Bytes → Nonce → Bytes → Bytes → Option Bytes
  decrypt_encrypt : ∀ key nonce aad msg ciphertext,
    encrypt key nonce aad msg = some ciphertext → decrypt key nonce aad ciphertext = some msg

/-- A cipher that writes key and associated data in front of the message, for fixed inputs. -/
abbrev Aes256Gcm.sample : Aes256Gcm where
  encrypt key _ aad msg := some (key ++ aad ++ msg)
  decrypt key _ aad ciphertext :=
    if ciphertext.take (key ++ aad).length = key ++ aad then
      some (ciphertext.drop (key ++ aad).length) else none
  decrypt_encrypt key nonce aad msg ciphertext h := by
    cases h
    rw [List.take_left, List.drop_left, if_pos rfl]

/-- Source: `encryption.rs`. -/
inductive EncryptionError
  | invalidKeyLength
  | blobTooShort
  | aead
deriving DecidableEq

section
variable [Aes256Gcm]

/-- The nonce and, behind it, the ciphertext. Source: `encryption.rs`. -/
def encrypt (nonce : Nonce) (dek aad plaintext : Bytes) : Except EncryptionError Bytes :=
  if dek.length ≠ 32 then .error .invalidKeyLength
  else
    match Aes256Gcm.encrypt dek nonce aad plaintext with
    | none => .error .aead
    | some ciphertext => .ok (nonce.1 ++ ciphertext)

/-- Source: `encryption.rs`. -/
def decrypt (dek aad blob : Bytes) : Except EncryptionError Bytes :=
  if dek.length ≠ 32 then .error .invalidKeyLength
  else if h : blob.length < nonceLen then .error .blobTooShort
  else
    let nonce : Nonce := ⟨blob.take nonceLen, by rw [List.length_take]; omega⟩
    match Aes256Gcm.decrypt dek nonce aad (blob.drop nonceLen) with
    | none => .error .aead
    | some plaintext => .ok plaintext

/-- Decryption under the same key and associated data gives back what was encrypted. -/
theorem decrypt_encrypt {nonce : Nonce} {dek aad plaintext blob : Bytes}
    (h : encrypt nonce dek aad plaintext = .ok blob) : decrypt dek aad blob = .ok plaintext := by
  unfold encrypt at h
  split at h
  · cases h
  · next hlen =>
    split at h
    · cases h
    · next ciphertext henc =>
      cases h
      have hn : (nonce.1 ++ ciphertext).take nonceLen = nonce.1 := take_left' nonce.2
      have hc : (nonce.1 ++ ciphertext).drop nonceLen = ciphertext := drop_left' nonce.2
      have hlong : ¬ (nonce.1 ++ ciphertext).length < nonceLen := by
        rw [length_append, nonce.2]
        omega
      simp only [decrypt, if_neg hlen, dif_neg hlong, hn, hc,
        Aes256Gcm.decrypt_encrypt _ _ _ _ _ henc]

end

/-! ## Texts and their hash -/

/-- `str::as_bytes`. -/
def asBytes (s : String) : Bytes := s.toUTF8.data.toList

/-- `String::from_utf8`. -/
def fromUtf8 (b : Bytes) : Option String := String.fromUTF8? ⟨b.toArray⟩

theorem fromUtf8_asBytes (s : String) : fromUtf8 (asBytes s) = some s := by
  show String.fromUTF8? ⟨s.toUTF8.data.toList.toArray⟩ = some s
  rw [Array.toArray_toList]
  unfold String.fromUTF8?
  split
  · rfl
  · next h => exact absurd s.isValidUTF8 h

theorem asBytes_of_fromUtf8 {b : Bytes} {s : String} (h : fromUtf8 b = some s) : asBytes s = b := by
  unfold fromUtf8 String.fromUTF8? at h
  split at h
  · cases h
    rfl
  · cases h

/-- `Uuid::as_bytes`: the sixteen bytes, the highest first. -/
def Uuid.asBytes (u : Uuid) : Bytes :=
  (List.range 16).map fun i => UInt8.ofNat (u.bits.toNat >>> (8 * (15 - i)))

/-- HMAC-SHA-256 of the `hmac` and `sha2` crates: the code of a message under a key. -/
class HmacSha256 where
  mac : Bytes → Bytes → Bytes

/-- A code that writes the key in front of the message, for runs on fixed inputs. -/
abbrev HmacSha256.sample : HmacSha256 := ⟨fun key msg => key ++ msg⟩

/-- The hash a destination is looked up by. Source: `destination_hmac.rs`, `compute`. -/
def destinationHmac [HmacSha256] (pepper : Bytes) (destination : String) : Bytes :=
  HmacSha256.mac pepper (asBytes destination)

end Messgr
