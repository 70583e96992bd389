import Messgr.Base
import Messgr.Lib.Run

/-!
# The credentials that the OTP path holds in memory

`src/otp/provider.rs` caches, for every tenant that it has seen, the providers of `provider_config`
with their keys from Vault. A request of a tenant that is not cached fetches them (`get_or_fetch`),
and from then on only the refresh loop replaces them: it reads the list and the keys, and then swaps
the entry. A provider whose key cannot be read is left out of the list, and the rest is taken to be
the whole of it.

`credentials_kept`: a provider that is cached and whose path stays listed stays cached, with a key
that it had or that was read since, if a refresh that has read the list can also read the keys of
what is cached (`readsKeys`). With Vault sealed a refresh empties the entry of a tenant, and a fetch
that fails is served from then on (`credentials_lost`).
-/

namespace Messgr.Otp

open List Option

/-- A row of `provider_config` of the SMS channel; neither the label nor the rate limit is read.
Source: `src/provider_config/model.rs`. -/
structure ProviderConfig where
  priority : Int
  credentialPath : String
deriving DecidableEq

/-- What `list` returns: the rows in the order of their priority, which is a key of the channel.
Source: `src/provider_config/repo.rs`, `list`. -/
structure Listing where
  rows : List ProviderConfig
  sorted : rows.Pairwise fun a b => a.priority < b.priority

/-- Source: `ResolvedProviderConfig`. -/
structure ResolvedProviderConfig where
  priority : Int
  credentialPath : String
  apiKey : String
deriving DecidableEq

/-- `str::split_once` at the first `/data/`. -/
def splitData : List Char → Option (List Char × List Char)
  | [] => none
  | c :: cs =>
    match c :: cs with
    | '/' :: 'd' :: 'a' :: 't' :: 'a' :: '/' :: rest => some ([], rest)
    | _ => (splitData cs).map fun p => (c :: p.1, p.2)

/-- Source: `src/keystore.rs`. -/
def splitKvPath (path : String) : Option (String × String) :=
  (splitData path.toList).map fun p => (String.ofList p.1, String.ofList p.2)

/-- The answers that one run of `resolve_all` gets: whether the pool of the tenant opens, whether
the list can be read, and what Vault returns for each row, if anything. -/
structure Answers where
  pool : Bool := true
  list : Bool := true
  read : ProviderConfig → Option String := fun _ => none

/-- One row of `resolve_all`. -/
def resolve (ans : Answers) (row : ProviderConfig) : Option ResolvedProviderConfig :=
  (splitKvPath row.credentialPath).bind fun _ => (ans.read row).map fun apiKey =>
    ⟨row.priority, row.credentialPath, apiKey⟩

/-- Source: `resolve_all`. -/
def resolveAll (listing : Listing) (ans : Answers) : Option (List ResolvedProviderConfig) :=
  if ans.list then some (listing.rows.filterMap (resolve ans)) else none

/-! ## The system -/

/-- The tables of the tenants, the cache, the entry about to be swapped in and the keys read, by
tenant. -/
structure World where
  providerConfig : Uuid → Listing
  entries : Uuid → Option (List ResolvedProviderConfig)
  pending : Option (Uuid × List ResolvedProviderConfig)
  reads : List (Uuid × ResolvedProviderConfig)

/-- At the start of the process. -/
def World.new (providerConfig : Uuid → Listing) : World := ⟨providerConfig, fun _ => none, none, []⟩

/-- An operator changes a tenant's list, a request asks for it, or the refresh loop takes one of its
two steps. -/
inductive Act
  | configure (tenantId : Uuid) (listing : Listing)
  | getOrFetch (tenantId : Uuid) (ans : Answers)
  | resolveAll (tenantId : Uuid) (ans : Answers)
  | insert

/-- Performs one act, if it can be performed. The write lock is held over all of a fetch. Source:
`get_or_fetch`, `refresh_once`. -/
def World.step (w : World) : Act → Option World
  | .configure tenantId listing =>
    some { w with providerConfig := Function.update w.providerConfig tenantId listing }
  | .getOrFetch tenantId ans =>
    match w.entries tenantId with
    | some _ => some w
    | none =>
      let resolved := (Otp.resolveAll (w.providerConfig tenantId) ans).getD []
      some { w with
        entries := Function.update w.entries tenantId (some resolved)
        reads := w.reads ++ resolved.map (tenantId, ·) }
  | .resolveAll tenantId ans =>
    if (w.entries tenantId).isSome && w.pending = none then
      if ans.pool then
        match Otp.resolveAll (w.providerConfig tenantId) ans with
        | some resolved =>
          some { w with
            pending := some (tenantId, resolved)
            reads := w.reads ++ resolved.map (tenantId, ·) }
        | none => some w
      else some w
    else none
  | .insert =>
    w.pending.map fun p =>
      { w with entries := Function.update w.entries p.1 (some p.2), pending := none }

/-- What requests of a tenant are served from. -/
def World.cached (w : World) (tenantId : Uuid) : List ResolvedProviderConfig :=
  (w.entries tenantId).getD []

/-- A row has the path, under whatever priority. -/
def Listing.has (listing : Listing) (credentialPath : String) : Bool :=
  listing.rows.any (·.credentialPath = credentialPath)

/-- The row of a provider. -/
def ResolvedProviderConfig.row (p : ResolvedProviderConfig) : ProviderConfig :=
  ⟨p.priority, p.credentialPath⟩

/-- The condition: a fetch can read the list, and the keys of the rows that name one; a refresh that
can read the list can read the keys of the rows whose path is cached. -/
def readsKeys (w : World) : Act → Bool
  | .getOrFetch tenantId ans =>
    (w.entries tenantId).isSome || (ans.list && (w.providerConfig tenantId).rows.all fun row =>
      (splitKvPath row.credentialPath).isNone || (ans.read row).isSome)
  | .resolveAll tenantId ans =>
    !ans.pool || !ans.list || (w.providerConfig tenantId).rows.all fun row =>
      (w.cached tenantId).all fun p =>
        p.credentialPath ≠ row.credentialPath || (ans.read row).isSome
  | _ => true

/-! ## What is resolved -/

section
variable {ans : Answers} {row : ProviderConfig} {listing : Listing} {p : ResolvedProviderConfig}
variable {resolved : List ResolvedProviderConfig}

theorem resolve_some (h : resolve ans row = some p) :
    p.row = row ∧ (splitKvPath row.credentialPath).isSome = true := by
  obtain ⟨path, hpath, h⟩ := bind_eq_some_iff.1 h
  obtain ⟨apiKey, -, rfl⟩ := map_eq_some_iff.1 h
  exact ⟨rfl, isSome_iff_exists.2 ⟨path, hpath⟩⟩

/-- A key that can be read is. -/
theorem exists_resolve (hpath : (splitKvPath row.credentialPath).isSome = true)
    (hread : (ans.read row).isSome = true) : ∃ p, resolve ans row = some p ∧ p.row = row := by
  obtain ⟨path, hpath⟩ := isSome_iff_exists.1 hpath
  obtain ⟨apiKey, hread⟩ := isSome_iff_exists.1 hread
  refine ⟨⟨row.priority, row.credentialPath, apiKey⟩, ?_, rfl⟩
  rw [resolve, hpath, bind_some, hread]
  rfl

/-- What is resolved is in the order of priorities, and every provider has a path. -/
structure InOrder (resolved : List ResolvedProviderConfig) : Prop where
  sorted : resolved.Pairwise fun a b => a.priority < b.priority
  path : ∀ p ∈ resolved, (splitKvPath p.credentialPath).isSome = true

theorem inOrder_resolveAll (h : resolveAll listing ans = some resolved) : InOrder resolved := by
  unfold resolveAll at h
  split at h <;> cases h
  refine ⟨?_, fun p hp => ?_⟩
  · refine .filterMap _ (fun a b hab p hp q hq => ?_) listing.sorted
    rw [← (resolve_some hp).1, ← (resolve_some hq).1] at hab
    exact hab
  · obtain ⟨row, -, hrow⟩ := mem_filterMap.1 hp
    obtain ⟨rfl, hpath⟩ := resolve_some hrow
    exact hpath

/-- A row whose key can be read is among what is resolved. -/
theorem mem_resolveAll (h : resolveAll listing ans = some resolved) (hrow : row ∈ listing.rows)
    (hpath : (splitKvPath row.credentialPath).isSome = true)
    (hread : (ans.read row).isSome = true) : ∃ p ∈ resolved, p.row = row := by
  unfold resolveAll at h
  split at h <;> cases h
  obtain ⟨p, hp, heq⟩ := exists_resolve hpath hread
  exact ⟨p, mem_filterMap.2 ⟨row, hrow, hp⟩, heq⟩

end

/-! ## The cache -/

/-- Every list, cached or about to be, is in order. -/
structure World.InOrder (w : World) : Prop where
  cached : ∀ tenantId, Otp.InOrder (w.cached tenantId)
  pending : ∀ p, w.pending = some p → Otp.InOrder p.2

section
variable {w w' : World} {a : Act} {tenantId tenantId' : Uuid}
variable {resolved : List ResolvedProviderConfig}

theorem inOrder_nil : InOrder [] :=
  ⟨.nil, fun _ hp => absurd hp not_mem_nil⟩

/-- The cache after an entry was swapped in. -/
theorem cached_update (h : w'.entries = Function.update w.entries tenantId (some resolved)) :
    w'.cached tenantId' = if tenantId' = tenantId then resolved else w.cached tenantId' := by
  rw [World.cached, h]
  by_cases heq : tenantId' = tenantId
  · subst heq
    rw [if_pos rfl, Function.update_self]
    rfl
  · rw [if_neg heq, Function.update_of_ne heq]
    rfl

/-- What a step does to the cache: nothing, a first fetch, the reads of a refresh, or its swap. -/
inductive CacheStep (w : World) : Act → World → Prop
  | configured {tenantId : Uuid} {listing : Listing} :
      CacheStep w (.configure tenantId listing)
        { w with providerConfig := Function.update w.providerConfig tenantId listing }
  | nothing {a : Act} : CacheStep w a w
  | fetched {tenantId : Uuid} {ans : Answers} {resolved : List ResolvedProviderConfig}
      (cold : w.entries tenantId = none)
      (resolve : resolveAll (w.providerConfig tenantId) ans = some resolved ∨
        ans.list = false ∧ resolved = []) :
      CacheStep w (.getOrFetch tenantId ans) { w with
        entries := Function.update w.entries tenantId (some resolved)
        reads := w.reads ++ resolved.map (tenantId, ·) }
  | read {tenantId : Uuid} {ans : Answers} {resolved : List ResolvedProviderConfig}
      (pool : ans.pool = true)
      (resolve : resolveAll (w.providerConfig tenantId) ans = some resolved) :
      CacheStep w (.resolveAll tenantId ans) { w with
        pending := some (tenantId, resolved)
        reads := w.reads ++ resolved.map (tenantId, ·) }
  | swapped {tenantId : Uuid} {resolved : List ResolvedProviderConfig}
      (pending : w.pending = some (tenantId, resolved)) :
      CacheStep w .insert { w with
        entries := Function.update w.entries tenantId (some resolved)
        pending := none }

/-- Every step is one of these. -/
theorem cacheStep_of_step (h : w.step a = some w') : CacheStep w a w' := by
  cases a with
  | configure tenantId listing =>
    cases h
    exact .configured
  | getOrFetch tenantId ans =>
    simp only [World.step] at h
    split at h
    · cases h
      exact .nothing
    · next hcold =>
      cases h
      refine .fetched hcold ?_
      cases hlist : resolveAll (w.providerConfig tenantId) ans with
      | some resolved => exact .inl rfl
      | none =>
        refine .inr ⟨?_, rfl⟩
        unfold resolveAll at hlist
        split at hlist
        · cases hlist
        · next hno => exact Bool.eq_false_iff.2 hno
  | resolveAll tenantId ans =>
    simp only [World.step] at h
    split at h
    · split at h
      · next hpool =>
        split at h <;> cases h
        · next hresolve => exact .read hpool hresolve
        · exact .nothing
      · cases h
        exact .nothing
    · cases h
  | insert =>
    obtain ⟨⟨tenantId, resolved⟩, hpending, rfl⟩ := map_eq_some_iff.1 h
    exact .swapped hpending

/-- Every step keeps the lists in order. -/
theorem World.InOrder.step (hs : w.step a = some w') (h : w.InOrder) : w'.InOrder := by
  cases cacheStep_of_step hs with
  | configured => exact ⟨h.cached, h.pending⟩
  | nothing => exact h
  | @fetched tenantId ans resolved cold hresolve =>
    refine ⟨fun tenantId' => ?_, h.pending⟩
    rw [cached_update rfl]
    split
    · rcases hresolve with hresolve | ⟨-, rfl⟩
      · exact inOrder_resolveAll hresolve
      · exact inOrder_nil
    · exact h.cached tenantId'
  | read pool hresolve =>
    refine ⟨h.cached, fun p hp => ?_⟩
    cases hp
    exact inOrder_resolveAll hresolve
  | swapped hpending =>
    refine ⟨fun tenantId' => ?_, fun p hp => by cases hp⟩
    rw [cached_update rfl]
    split
    · exact h.pending _ hpending
    · exact h.cached tenantId'

end

/-! ## A provider that is cached -/

/-- The path of `p` is cached, with the key it had or one read since, and so it is in the entry
about to be swapped in. -/
def Kept (tenantId : Uuid) (p : ResolvedProviderConfig)
    (reads : List (Uuid × ResolvedProviderConfig))
    (w : World) : Prop :=
  ∃ new, w.reads = reads ++ new ∧
    (∃ p' ∈ w.cached tenantId, p'.credentialPath = p.credentialPath ∧
      (p'.apiKey = p.apiKey ∨ (tenantId, p') ∈ new)) ∧
    ∀ resolved, w.pending = some (tenantId, resolved) →
      ∃ p' ∈ resolved, p'.credentialPath = p.credentialPath ∧ (tenantId, p') ∈ new

section
variable {w w' : World} {a : Act} {tenantId : Uuid} {p : ResolvedProviderConfig}
variable {reads : List (Uuid × ResolvedProviderConfig)}

/-- Every step that meets the condition keeps the credentials. -/
theorem Kept.step (hs : w.step a = some w') (hcond : readsKeys w a = true)
    (hlisted : (w.providerConfig tenantId).has p.credentialPath = true) (hw : w.InOrder)
    (h : Kept tenantId p reads w) : Kept tenantId p reads w' := by
  obtain ⟨new, hreads, ⟨p', hp', hrow, hkey⟩, hpending⟩ := h
  -- the keys that are read now come after those that were
  have hmore (more : List (Uuid × ResolvedProviderConfig)) :
      w.reads ++ more = reads ++ (new ++ more) := by
    rw [hreads, append_assoc]
  have hkey' (more : List (Uuid × ResolvedProviderConfig)) :
      p'.apiKey = p.apiKey ∨ (tenantId, p') ∈ new ++ more :=
    hkey.imp_right (mem_append_left more)
  cases cacheStep_of_step hs with
  | configured | nothing => exact ⟨new, hreads, ⟨p', hp', hrow, hkey⟩, hpending⟩
  | @fetched tenantId' ans resolved cold hresolve =>
    have hne : tenantId ≠ tenantId' := by
      rintro rfl
      rw [World.cached, cold] at hp'
      exact absurd hp' not_mem_nil
    refine ⟨_, hmore _, ⟨p', ?_, hrow, hkey' _⟩, fun resolved' hres => ?_⟩
    · rw [cached_update rfl, if_neg hne]
      exact hp'
    · obtain ⟨q, hq, hqrow, hqnew⟩ := hpending resolved' hres
      exact ⟨q, hq, hqrow, mem_append_left _ hqnew⟩
  | @read tenantId' ans resolved hpool hresolve =>
    refine ⟨_, hmore _, ⟨p', hp', hrow, hkey' _⟩, fun resolved' hres => ?_⟩
    cases hres
    have hlist : ans.list = true := by
      unfold resolveAll at hresolve
      split at hresolve
      · next hlist => exact hlist
      · cases hresolve
    obtain ⟨row, hmem, hpath⟩ := List.any_eq_true.1 hlisted
    rw [decide_eq_true_eq, ← hrow] at hpath
    have hread : (ans.read row).isSome = true := by
      simp only [readsKeys, hpool, hlist, Bool.not_true, Bool.false_or, List.all_eq_true] at hcond
      simpa [hpath] using hcond row hmem p' hp'
    obtain ⟨q, hq, rfl⟩ :=
      mem_resolveAll hresolve hmem (hpath ▸ (hw.cached tenantId).path p' hp') hread
    exact ⟨q, hq, hpath.trans hrow, mem_append_right _ (List.mem_map.2 ⟨q, hq, rfl⟩)⟩
  | @swapped tenantId' resolved hswap =>
    refine ⟨new, hreads, ?_, fun resolved' hres => by cases hres⟩
    rw [cached_update rfl]
    split
    · next heq =>
      subst heq
      obtain ⟨q, hq, hqrow, hqnew⟩ := hpending resolved hswap
      exact ⟨q, hq, hqrow, .inr hqnew⟩
    · exact ⟨p', hp', hrow, hkey⟩

end

/-- In every run of requests, refreshes and changes of the lists, with any of the reads failing
except those that the condition names: the cached lists are in the order of the priorities; a
provider that is cached and whose path stays listed stays cached, with the key that it had or one
that was read since; and a fetch leaves a list of all providers that are listed with a path. -/
theorem credentials_kept {providerConfig : Uuid → Listing} {as : List Act} {w : World}
    (h : Run.Steps World.step (readsKeys · ·) (.new providerConfig) as w) :
    (∀ tenantId, (w.cached tenantId).Pairwise fun a b => a.priority < b.priority) ∧
    (w.pending = none → ∀ (tenantId : Uuid) (p : ResolvedProviderConfig) (bs : List Act)
      (w' : World), p ∈ w.cached tenantId →
      Run.Steps World.step (fun w a => readsKeys w a = true ∧
        (w.providerConfig tenantId).has p.credentialPath = true) w bs w' →
      ∃ new, w'.reads = w.reads ++ new ∧ ∃ p' ∈ w'.cached tenantId,
        p'.credentialPath = p.credentialPath ∧ (p'.apiKey = p.apiKey ∨ (tenantId, p') ∈ new)) ∧
    ∀ (tenantId : Uuid) (ans : Answers) (w' : World), w.entries tenantId = none →
      readsKeys w (.getOrFetch tenantId ans) = true →
      w.step (.getOrFetch tenantId ans) = some w' →
      ∀ row ∈ (w.providerConfig tenantId).rows, (splitKvPath row.credentialPath).isSome = true →
        ∃ p ∈ w'.cached tenantId, p.row = row := by
  have hstart : (World.new providerConfig).InOrder :=
    ⟨fun _ => inOrder_nil, fun p hp => by cases hp⟩
  have hw : w.InOrder := h.inv (fun _ _ _ _ hs hi => hi.step hs) hstart
  refine ⟨fun tenantId => (hw.cached tenantId).sorted,
    fun hidle tenantId p bs w' hp hrun => ?_,
    fun tenantId ans w' hcold hcond hs row hrow hpath => ?_⟩
  · have hkept : Kept tenantId p w.reads w :=
      ⟨[], (List.append_nil _).symm, ⟨p, hp, rfl, .inl rfl⟩, fun resolved hres => by
        rw [hidle] at hres
        cases hres⟩
    have hend : Kept tenantId p w.reads w' :=
      hrun.inv_of (fun _ _ _ _ hs hi => World.InOrder.step hs hi)
        (fun _ _ _ hC hs hi hk => hk.step hs hC.1 hC.2 hi) hw hkept
    obtain ⟨new, hreads, hcached, -⟩ := hend
    exact ⟨new, hreads, hcached⟩
  · simp only [readsKeys, hcold, Option.isSome_none, Bool.false_or, Bool.and_eq_true,
      List.all_eq_true] at hcond
    obtain ⟨hlist, hreads⟩ := hcond
    have hresolve : resolveAll (w.providerConfig tenantId) ans =
        some ((w.providerConfig tenantId).rows.filterMap (resolve ans)) := if_pos hlist
    simp only [World.step, hcold, hresolve, Option.some.injEq] at hs
    subst hs
    rw [cached_update rfl, if_pos rfl]
    refine mem_resolveAll hresolve hrow hpath ?_
    have hread := hreads row hrow
    rwa [Option.isNone_eq_false_iff.2 hpath, Bool.false_or] at hread

/-! ### Runs on fixed inputs -/

/-- A list of one provider. -/
def Listing.sample (priority : Int) : Listing :=
  ⟨[⟨priority, "secret/data/acme/sms"⟩], List.pairwise_singleton _ _⟩

/-- Vault has the key. -/
def Answers.sample : Answers := { read := fun _ => some "k" }

/-- The provider with its first key. -/
def ResolvedProviderConfig.sample : ResolvedProviderConfig := ⟨1, "secret/data/acme/sms", "k"⟩

/-- A refresh cannot read the list, the provider's priority changes, and the next one reads a new
key. -/
def refreshed : List Act :=
  [.resolveAll ⟨1⟩ { list := false }, .configure ⟨1⟩ (.sample 2),
   .resolveAll ⟨1⟩ { read := fun _ => some "k2" }, .insert]

/-- The condition of the second part of the run, as a check. -/
def keepsSample (w : World) (a : Act) : Bool :=
  readsKeys w a && (w.providerConfig ⟨1⟩).has "secret/data/acme/sms"

/-- The provider stays, with the new key. -/
theorem credentials_kept_refreshed :
    ∃ w w', Run.Steps World.step (readsKeys · ·) (.new fun _ => .sample 1)
        [.getOrFetch ⟨1⟩ .sample] w ∧
      Run.Steps World.step (keepsSample · ·) w refreshed w' ∧
      w.cached ⟨1⟩ = [.sample] ∧ w'.cached ⟨1⟩ = [⟨2, "secret/data/acme/sms", "k2"⟩] ∧
      ∃ p' ∈ w'.cached ⟨1⟩, p'.credentialPath = "secret/data/acme/sms" := by
  obtain ⟨w, hw, hp⟩ := Run.Steps.exists_of_checked World.step readsKeys (.new fun _ => .sample 1)
    [.getOrFetch ⟨1⟩ .sample] (fun w => w.cached ⟨1⟩ = [.sample] ∧ w.pending = none ∧
      (Run.exec (fun w a => if keepsSample w a then w.step a else none) w refreshed).any
        (fun w' => w'.cached ⟨1⟩ = [⟨2, "secret/data/acme/sms", "k2"⟩]) = true)
    (by decide +kernel)
  obtain ⟨hcached, hidle, hexec⟩ := of_decide_eq_true hp
  obtain ⟨w', hw', hp'⟩ := Run.Steps.exists_of_checked World.step keepsSample w refreshed _ hexec
  have hrun : Run.Steps World.step (fun w a => readsKeys w a = true ∧
      (w.providerConfig ⟨1⟩).has "secret/data/acme/sms" = true) w refreshed w' :=
    hw'.mono fun w a => Bool.and_eq_true_iff.1
  obtain ⟨_, -, p', hp'mem, hrow, -⟩ := (credentials_kept hw).2.1 hidle ⟨1⟩ .sample refreshed w'
    (hcached ▸ List.mem_singleton_self _) hrun
  exact ⟨w, w', hw, hw', hcached, of_decide_eq_true hp', p', hp'mem, hrow⟩

/-- Vault is sealed during a refresh, and the tenant's entry is empty after it. A fetch fails, and
the next request gets the empty list although it could fetch. -/
theorem credentials_lost :
    (∃ w, Run.Steps World.step Run.Any (.new fun _ => .sample 1)
        [.getOrFetch ⟨1⟩ .sample, .resolveAll ⟨1⟩ {}, .insert] w ∧
      (w.providerConfig ⟨1⟩).rows = [ResolvedProviderConfig.sample.row] ∧
      w.entries ⟨1⟩ = some []) ∧
    ∃ w, Run.Steps World.step Run.Any (.new fun _ => .sample 1)
        [.getOrFetch ⟨1⟩ { list := false }, .getOrFetch ⟨1⟩ .sample] w ∧
      (w.providerConfig ⟨1⟩).rows = [ResolvedProviderConfig.sample.row] ∧
      w.entries ⟨1⟩ = some [] := by
  have hend {as : List Act}
      (h : (Run.exec World.step (.new fun _ => .sample 1) as).any (fun w =>
        (w.providerConfig ⟨1⟩).rows = [ResolvedProviderConfig.sample.row] ∧
          w.entries ⟨1⟩ = some []) = true) :
      ∃ w, Run.Steps World.step Run.Any (.new fun _ => .sample 1) as w ∧
        (w.providerConfig ⟨1⟩).rows = [ResolvedProviderConfig.sample.row] ∧
        w.entries ⟨1⟩ = some [] := by
    obtain ⟨w, hw, hp⟩ := Run.Steps.exists_of_exec _ _ _ _ h
    exact ⟨w, hw, of_decide_eq_true hp⟩
  exact ⟨hend (by decide +kernel), hend (by decide +kernel)⟩

end Messgr.Otp
