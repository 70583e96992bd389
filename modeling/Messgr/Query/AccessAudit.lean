import Messgr.Lib.Hex
import Messgr.Lib.Route
import Messgr.Query.Timeline

/-!
# The audit of compliance access

Every request of the role `compliance` to `query-api` is recorded with the route and, where the
route has the id of a customer, with that id (`src/query_api/handlers.rs`, `access_audit_mw`). The
handler gets the id from the router, percent-decoded (`idPath`); the record takes it from the path
as it was sent (`extractPathCustomerId`). They agree exactly if the segment has no percent sign
(`audit_names_customer_iff`, `encoded_id_not_recorded`).
-/

namespace Messgr.Query

open List Nat Route

/-! ## Routes -/

/-- The routes that the middleware is on, within the nest. Source: `src/query_api/mod.rs`,
`router`, `data_routes`. -/
def dataRoutes : List Pattern :=
  [[.static "comms"],
   [.static "comms", .param "id"],
   [.static "customers", .param "id", .static "timeline"],
   [.static "campaigns", .param "id", .static "reach"],
   [.static "producers", .param "id", .static "usage"],
   [.static "producers", .param "id", .static "quota"],
   [.static "ui", .static "customers", .param "id", .static "timeline"],
   [.static "ui", .static "comms", .param "id"],
   [.static "ui", .static "campaigns", .param "id", .static "reach"],
   [.static "ui", .static "admin", .static "quota"],
   [.static "ui", .static "admin", .static "kill-switches"],
   [.static "ui", .static "admin", .static "kill-switches", .static "blast-radius"],
   [.static "admin", .static "kill-switches"],
   [.static "admin", .static "kill-switches", .param "id", .static "release"],
   [.static "ui", .static "admin", .static "scheduled"],
   [.static "admin", .static "scheduled", .param "id", .static "cancel"],
   [.static "ui", .static "admin", .static "producers"],
   [.static "admin", .static "producers"],
   [.static "admin", .static "producers", .param "id", .static "disable"],
   [.static "admin", .static "producers", .param "id", .static "quota"],
   [.static "admin", .static "producers", .param "id", .static "quota", .static "override"]]

/-- Where the routes are nested; a path begins with an empty segment. -/
def nestPrefix : Pattern := [.static "", .static "t", .param "tenant_slug"]

/-- The routes as the router matches them. -/
def routes : List Pattern := dataRoutes.map (nestPrefix ++ ·)

/-- Source: `CUSTOMER_ID_ROUTES`. -/
def customerIdRoutes : List String :=
  ["/t/\x7btenant_slug\x7d/customers/\x7bid\x7d/timeline",
   "/t/\x7btenant_slug\x7d/ui/customers/\x7bid\x7d/timeline"]

/-! ## The parameters of a path -/

/-- The byte that a percent sign and two digits stand for. -/
def unescape (b high low : UInt8) : Option UInt8 :=
  if b = 37 then do
    let x ← Hex.digitOf (Char.ofNat high.toNat)
    let y ← Hex.digitOf (Char.ofNat low.toNat)
    pure (UInt8.ofNat (16 * x + y))
  else none

/-- `percent_encoding::percent_decode`: a percent sign that is not followed by two digits stays. -/
def percentDecode : Bytes → Bytes
  | b :: high :: low :: rest =>
    match unescape b high low with
    | some byte => byte :: percentDecode rest
    | none => b :: percentDecode (high :: low :: rest)
  | rest => rest

/-- The parameters as the extractors of `axum` see them; `none` if one is not UTF-8. -/
def decodeParams (params : List (String × String)) : Option (List (String × String)) :=
  params.mapM fun p => (fromUtf8 (percentDecode (asBytes p.2))).map (p.1, ·)

section
variable [UuidCrate]

/-- The id that a handler gets. Source: `src/query_api/path.rs`, `IdPath`. -/
def idPath (params : List (String × String)) : Option Uuid := do
  let params ← decodeParams params
  let id ← params.lookup "id"
  UuidCrate.parseStr id

/-- Source: `extract_path_customer_id`, of the segments of the path. -/
def extractPathCustomerId (segments : List String) : Option Uuid := do
  let idx ← segments.findIdx? (· = "timeline")
  if idx = 0 then none
  else (segments[idx - 1]?).bind UuidCrate.parseStr

end

/-! ## The middleware -/

/-- Source: `src/query_api/tenant.rs`. -/
inductive TenantContextError
  | unknownTenant
  | database (err : SqlError)
deriving DecidableEq

/-- What the middleware asks: the tenant of a slug, the pool of a tenant, who is asking. -/
structure Services where
  findBySlug : String → Except SqlError (Option Uuid)
  getOrOpen : Uuid → Except SqlError Unit
  authenticate : Uuid → Option Identity

/-- Source: `tenant.rs`, `TenantContext`, `from_request_parts`. -/
def tenantContext (services : Services) (params : List (String × String)) :
    Except TenantContextError Uuid :=
  match (decodeParams params).bind (·.lookup "tenant_slug") with
  | none => .error .unknownTenant
  | some slug =>
    match services.findBySlug slug with
    | .error err => .error (.database err)
    | .ok none => .error .unknownTenant
    | .ok (some tenant) =>
      match services.getOrOpen tenant with
      | .error err => .error (.database err)
      | .ok () => .ok tenant

/-- Source: `src/access_audit/model.rs`. -/
structure AccessAuditInput where
  actor : String
  role : Role
  route : String
  customerId : Option Uuid
  queryParams : String
deriving DecidableEq

/-- A request that is refused, or one that goes on to its handler after the given record. -/
inductive Outcome
  | rejected (err : TenantContextError)
  | unauthorized
  | next (record : Option AccessAuditInput)
deriving DecidableEq

section
variable [UuidCrate]

/-- The record of a request. Source: `access_audit_mw`. -/
def auditRecord (identity : Identity) (matchedPath : Option String) (segments : List String)
    (query : Option String) : AccessAuditInput where
  actor := identity.actor
  role := identity.role
  route := matchedPath.getD ""
  customerId := matchedPath.bind fun path =>
    if path ∈ customerIdRoutes then extractPathCustomerId segments else none
  queryParams := query.getD ""

/-- Source: `access_audit_mw`. A record that cannot be written does not stop the request. -/
def accessAuditMw (services : Services) (params : List (String × String))
    (matchedPath : Option String) (segments : List String) (query : Option String) : Outcome :=
  match tenantContext services params with
  | .error err => .rejected err
  | .ok tenant =>
    match services.authenticate tenant with
    | none => .unauthorized
    | some identity =>
      if identity.role = .compliance then
        .next (some (auditRecord identity matchedPath segments query))
      else .next none

/-- The path that a nested router hands on: without the prefix it is nested under, or the whole
one. -/
inductive Seen
  | stripped
  | original
deriving DecidableEq

def Seen.path : Seen → List String → List String
  | .stripped, segments => "" :: segments.drop nestPrefix.length
  | .original, segments => segments

/-- A request, the path as it was sent and split at the slashes. -/
structure Request where
  segments : List String
  query : Option String
deriving DecidableEq

/-- What happens to a request before its handler, if it has a route. -/
def receive (services : Services) (seen : Seen) (request : Request) : Option Outcome :=
  (find routes request.segments).map fun found =>
    accessAuditMw services found.2 (some (text found.1)) (seen.path request.segments)
      request.query

end

/-! ## Percent signs -/

theorem percentDecode_of_not_mem {bytes : Bytes} (h : 37 ∉ bytes) :
    percentDecode bytes = bytes := by
  induction bytes with
  | nil => rfl
  | cons b rest ih =>
    obtain ⟨hb, hrest⟩ := not_or.1 (mt mem_cons.2 h)
    match rest with
    | [] => rfl
    | [c] => rfl
    | high :: low :: rest =>
      rw [percentDecode, unescape, if_neg (Ne.symm hb)]
      exact congrArg (b :: ·) (ih hrest)

/-- The byte of the percent sign is in the encoding of no other character. -/
theorem eq_of_mem_utf8EncodeChar {c : Char} (h : 37 ∈ String.utf8EncodeChar c) : c = '%' := by
  have hbyte : ∀ n : Nat, (37 : UInt8) = UInt8.ofNat n → n % 256 = 37 := by
    intro n hn
    have := congrArg UInt8.toNat hn
    rw [UInt8.toNat_ofNat'] at this
    exact this.symm
  unfold String.utf8EncodeChar at h
  dsimp only at h
  split at h
  · have hn := hbyte _ (mem_singleton.1 h)
    refine Char.ext (UInt32.toNat_inj.1 ?_)
    show c.val.toNat = 37
    omega
  · split at h
    · simp only [mem_cons, not_mem_nil, or_false] at h
      rcases h with h | h <;> have hn := hbyte _ h <;> omega
    · split at h
      · simp only [mem_cons, not_mem_nil, or_false] at h
        rcases h with h | h | h <;> have hn := hbyte _ h <;> omega
      · simp only [mem_cons, not_mem_nil, or_false] at h
        rcases h with h | h | h | h <;> have hn := hbyte _ h <;> omega

theorem not_mem_asBytes {s : String} (h : '%' ∉ s.toList) : 37 ∉ asBytes s := by
  have hbytes : asBytes s = s.toList.flatMap String.utf8EncodeChar := by
    show s.toByteArray.data.toList = _
    rw [← String.utf8Encode_toList, List.utf8Encode, data_toByteArray]
  rw [hbytes, mem_flatMap]
  rintro ⟨c, hc, hmem⟩
  exact h (eq_of_mem_utf8EncodeChar hmem ▸ hc)

/-- A parameter without a percent sign is itself. -/
theorem decode_of_not_mem {s : String} (h : '%' ∉ s.toList) :
    fromUtf8 (percentDecode (asBytes s)) = some s := by
  rw [percentDecode_of_not_mem (not_mem_asBytes h), fromUtf8_asBytes]

/-! ## The record and the handler -/

/-- The routes are apart from each other. -/
theorem routes_pairwise : routes.Pairwise fun p q => overlaps p q = false := by
  decide +kernel

theorem customerIdRoutes_routes : ∀ p ∈ routes, text p ∈ customerIdRoutes →
    p = nestPrefix ++ [.static "customers", .param "id", .static "timeline"] ∨
      p = nestPrefix ++ [.static "ui", .static "customers", .param "id", .static "timeline"] := by
  decide +kernel

variable {segments : List String} {params : List (String × String)}

theorem values_nested {q : Pattern}
    (h : values (nestPrefix ++ q) segments = some params) :
    ∃ slug rest ws, segments = "" :: "t" :: slug :: rest ∧ values q rest = some ws ∧
      params = ("tenant_slug", slug) :: ws := by
  obtain ⟨_, rfl, h1⟩ := values_static h
  obtain ⟨_, rfl, h2⟩ := values_static h1
  obtain ⟨slug, rest, ws, rfl, h3, rfl⟩ := values_param h2
  exact ⟨slug, rest, ws, rfl, h3, rfl⟩

/-- The paths of the routes with the id of a customer. -/
theorem segments_of_find {p : Pattern} (h : find routes segments = some (p, params))
    (hp : text p ∈ customerIdRoutes) :
    ∃ slug raw, params = [("tenant_slug", slug), ("id", raw)] ∧
      (segments = ["", "t", slug, "customers", raw, "timeline"] ∨
        segments = ["", "t", slug, "ui", "customers", raw, "timeline"]) := by
  obtain ⟨hmem, hvalues⟩ := (find_eq_some_iff routes_pairwise).1 h
  rcases customerIdRoutes_routes p hmem hp with rfl | rfl
  · obtain ⟨slug, _, _, rfl, h1, rfl⟩ := values_nested hvalues
    obtain ⟨_, rfl, h2⟩ := values_static h1
    obtain ⟨raw, _, _, rfl, h3, rfl⟩ := values_param h2
    obtain ⟨_, rfl, h4⟩ := values_static h3
    obtain ⟨rfl, rfl⟩ := values_nil h4
    exact ⟨slug, raw, rfl, .inl rfl⟩
  · obtain ⟨slug, _, _, rfl, h1, rfl⟩ := values_nested hvalues
    obtain ⟨_, rfl, h2⟩ := values_static h1
    obtain ⟨_, rfl, h3⟩ := values_static h2
    obtain ⟨raw, _, _, rfl, h4, rfl⟩ := values_param h3
    obtain ⟨_, rfl, h5⟩ := values_static h4
    obtain ⟨rfl, rfl⟩ := values_nil h5
    exact ⟨slug, raw, rfl, .inr rfl⟩

/-- What the documentation of `Uuid::parse_str` says of the texts that it accepts: the shortest form
has 32 digits, and none has a percent sign. -/
def UuidFormats [UuidCrate] : Prop :=
  ∀ s u, UuidCrate.parseStr s = some u → 32 ≤ s.toList.length ∧ '%' ∉ s.toList

section
variable [UuidCrate] {slug raw : String} {u : Uuid}

/-- The segment before the only `timeline`. -/
theorem extract_append {pre : List String} (hpre : "timeline" ∉ pre) (hraw : raw ≠ "timeline") :
    extractPathCustomerId (pre ++ [raw, "timeline"]) = UuidCrate.parseStr raw := by
  have hidx : (pre ++ [raw, "timeline"]).findIdx? (· = "timeline") = some (pre.length + 1) := by
    rw [findIdx?_append, findIdx?_eq_none_iff.2]
    · simp [findIdx?_cons, hraw, add_comm]
    · intro s hs
      exact decide_eq_false fun h => hpre (h ▸ hs)
  rw [extractPathCustomerId, hidx]
  simp

theorem parse_short (h : UuidFormats) {s : String} (hs : s.toList.length < 32) :
    UuidCrate.parseStr s = none := by
  cases hu : UuidCrate.parseStr s with
  | none => rfl
  | some u => exact absurd (h s u hu).1 (not_le.2 hs)

/-- The id of the handler comes from the decoded segment. -/
theorem idPath_some (h : idPath [("tenant_slug", slug), ("id", raw)] = some u) :
    ∃ id, fromUtf8 (percentDecode (asBytes raw)) = some id ∧ UuidCrate.parseStr id = some u := by
  simp only [idPath, decodeParams, mapM_cons, mapM_nil] at h
  cases hslug : fromUtf8 (percentDecode (asBytes slug)) with
  | none => simp [hslug] at h
  | some slug' =>
    cases hraw : fromUtf8 (percentDecode (asBytes raw)) with
    | none => simp [hslug, hraw] at h
    | some id =>
      refine ⟨id, rfl, ?_⟩
      simpa [hslug, hraw, lookup_cons] using h

/-- What is recorded for a path with an id that the handler accepts. -/
theorem extract_seen (hcrate : UuidFormats) {seen : Seen}
    (hsegments : segments = ["", "t", slug, "customers", raw, "timeline"] ∨
      segments = ["", "t", slug, "ui", "customers", raw, "timeline"]) (hraw : raw ≠ "timeline") :
    extractPathCustomerId (seen.path segments) =
      if seen = .original ∧ slug = "timeline" then none else UuidCrate.parseStr raw := by
  cases seen with
  | stripped =>
    rw [if_neg (by simp)]
    rcases hsegments with rfl | rfl
    · exact @extract_append _ _ ["", "customers"] (by decide) hraw
    · exact @extract_append _ _ ["", "ui", "customers"] (by decide) hraw
  | original =>
    by_cases hslug : slug = "timeline"
    · -- the segment before the first `timeline` is that of the nest
      subst hslug
      have ht : UuidCrate.parseStr "t" = none := parse_short hcrate (by decide)
      rw [if_pos ⟨rfl, rfl⟩]
      rcases hsegments with rfl | rfl
      · exact ht
      · exact ht
    · rw [if_neg (fun h => hslug h.2)]
      rcases hsegments with rfl | rfl
      · exact @extract_append _ _ ["", "t", slug, "customers"] (by simp [Ne.symm hslug]) hraw
      · exact @extract_append _ _ ["", "t", slug, "ui", "customers"] (by simp [Ne.symm hslug]) hraw

end

/-- A request of the role `compliance` for the timeline of a customer whose id the handler accepts
is recorded, and the record names the customer exactly if the segment of the id has no percent sign
(and, were the path not stripped of its prefix, the tenant is not called `timeline`). -/
theorem audit_names_customer_iff [UuidCrate] (hcrate : UuidFormats) (services : Services)
    (seen : Seen) (request : Request) (route : Pattern) (params : List (String × String))
    (tenant : Uuid) (identity : Identity) (u : Uuid)
    (hroute : find routes request.segments = some (route, params))
    (hcustomer : text route ∈ customerIdRoutes)
    (htenant : tenantContext services params = .ok tenant)
    (hidentity : services.authenticate tenant = some identity)
    (hrole : identity.role = .compliance) (hid : idPath params = some u) :
    ∃ slug raw record, params = [("tenant_slug", slug), ("id", raw)] ∧
      receive services seen request = some (.next (some record)) ∧
      (record.customerId = some u ↔ '%' ∉ raw.toList ∧ (seen = .original → slug ≠ "timeline")) := by
  obtain ⟨slug, raw, rfl, hsegments⟩ := segments_of_find hroute hcustomer
  obtain ⟨id, hdecoded, hparse⟩ := idPath_some hid
  have hraw : raw ≠ "timeline" := by
    rintro rfl
    rw [decode_of_not_mem (by decide)] at hdecoded
    cases hdecoded
    exact absurd (hcrate _ _ hparse).1 (by decide)
  refine ⟨slug, raw, auditRecord identity (some (text route)) (seen.path request.segments)
    request.query, rfl, ?_, ?_⟩
  · rw [receive, hroute, Option.map_some, accessAuditMw, htenant]
    dsimp only
    rw [hidentity]
    dsimp only
    rw [if_pos hrole]
  · rw [auditRecord, Option.bind_some, if_pos hcustomer, extract_seen hcrate hsegments hraw]
    split
    · next hseen => simp [hseen.1, hseen.2]
    · next hseen =>
      have hslug : seen = .original → slug ≠ "timeline" := fun h1 h2 => hseen ⟨h1, h2⟩
      constructor
      · exact fun h => ⟨(hcrate _ _ h).2, hslug⟩
      · rintro ⟨hpercent, -⟩
        rw [decode_of_not_mem hpercent] at hdecoded
        cases hdecoded
        exact hparse

/-! ## Fixed requests -/

/-- A parser of 32 digits and of nothing else. -/
abbrev simpleUuids : UuidCrate :=
  ⟨fun s => if s.toList.length = 32 ∧ s.toList.all Hex.isDigit then
    some ⟨BitVec.ofNat 128
      (s.toList.foldl (fun value c => 16 * value + (Hex.digitOf c).getD 0) 0)⟩ else none⟩

theorem uuidFormats_simpleUuids : @UuidFormats simpleUuids := by
  intro s u h
  obtain ⟨⟨hlen, hdigits⟩, -⟩ := Option.ite_none_right_eq_some.1 h
  refine ⟨le_of_eq hlen.symm, fun hpercent => ?_⟩
  cases all_eq_true.1 hdigits _ hpercent

/-- One tenant, and someone of the role `compliance`. -/
def sampleServices : Services :=
  ⟨fun _ => .ok (some ⟨1⟩), fun _ => .ok (), fun _ => some ⟨"auditor", .compliance⟩⟩

/-- The timeline of a customer, under the given spelling of its id. -/
def sampleRequest (id : String) : Request := ⟨["", "t", "bank", "customers", id, "timeline"], none⟩

/-- The id as it is written usually. -/
theorem audit_names_customer_plain :
    ∃ record, @receive simpleUuids sampleServices .stripped
        (sampleRequest "0000000000000000000000000000000a") = some (.next (some record)) ∧
      record.customerId = some ⟨10⟩ := by
  obtain ⟨slug, raw, record, hparams, hreceive, hiff⟩ := @audit_names_customer_iff simpleUuids
    uuidFormats_simpleUuids sampleServices .stripped
    (sampleRequest "0000000000000000000000000000000a")
    (nestPrefix ++ [.static "customers", .param "id", .static "timeline"])
    [("tenant_slug", "bank"), ("id", "0000000000000000000000000000000a")] ⟨1⟩
    ⟨"auditor", .compliance⟩ ⟨10⟩ (by decide +kernel) (by decide +kernel) (by decide +kernel) rfl
    rfl (by decide +kernel)
  cases hparams
  exact ⟨record, hreceive, hiff.2 ⟨by decide, nofun⟩⟩

/-- The same id with its last digit encoded: the handler reads the customer, and the record names
none. -/
theorem encoded_id_not_recorded :
    (∃ found, find routes (sampleRequest "0000000000000000000000000000000%61").segments =
        some found ∧ text found.1 ∈ customerIdRoutes ∧
        @idPath simpleUuids found.2 = some ⟨10⟩) ∧
      ∃ record, @receive simpleUuids sampleServices .stripped
          (sampleRequest "0000000000000000000000000000000%61") = some (.next (some record)) ∧
        record.customerId = none := by
  constructor
  · exact ⟨(nestPrefix ++ [.static "customers", .param "id", .static "timeline"],
      [("tenant_slug", "bank"), ("id", "0000000000000000000000000000000%61")]),
      by decide +kernel, by decide +kernel, by decide +kernel⟩
  · refine ⟨⟨"auditor", .compliance, "/t/\x7btenant_slug\x7d/customers/\x7bid\x7d/timeline", none,
      ""⟩, by decide +kernel, rfl⟩

end Messgr.Query
