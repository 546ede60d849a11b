import Kopiur.Lib.Runs
import Kopiur.Ui.Impersonation

/-!
# Who the API server sees

What the headers of a client assert, and that no sequence of requests makes
one identity's client act as another.
-/

namespace Kopiur.Ui

open Kopiur.Lib

structure Codec.Lawful (codec : Codec) : Prop where
  fromStr : ∀ s v, codec.fromStr s = some v → v = utf8 s
  headerName : ∀ s n, codec.headerName s = some n → n = s.toLower

def impersonateUser : HeaderName := "impersonate-user"

def impersonateGroup : HeaderName := "impersonate-group"

def impersonateExtra (key : String) : HeaderName := ("impersonate-extra-" ++ key).toLower

def assertedExtras (id : Identity) (key : String) : HeaderMap :=
  ((id.extra.lookup key).getD []).map fun value => (impersonateExtra key, utf8 value)

def assertedHeaders (id : Identity) (extraKeys : List String) : HeaderMap :=
  (impersonateUser, utf8 id.user) :: id.groups.map (fun g => (impersonateGroup, utf8 g)) ++
    extraKeys.flatMap (assertedExtras id)

section layer

variable {codec : Codec} {id id' : Identity} {extraKeys : List String}

theorem headerValue_eq_ok (hcodec : codec.Lawful) {value : String} {what : IdentityHeaderKind}
    {v : HeaderValue} (h : headerValue codec value what = .ok v) : v = utf8 value := by
  unfold headerValue at h
  cases hs : codec.fromStr value with
  | none => simp [hs] at h
  | some w =>
    simp only [hs, Except.ok.injEq] at h
    rw [← h, hcodec.fromStr _ _ hs]

theorem headersFor_eq_ok (hcodec : codec.Lawful) {name : HeaderName} {what : IdentityHeaderKind}
    {values : List String} {hs : HeaderMap} (h : headersFor codec name what values = .ok hs) :
    hs = values.map fun value => (name, utf8 value) := by
  refine map_of_mapM ?_ h
  intro value header h
  obtain ⟨v, hv, h⟩ := bind_eq_ok.mp h
  cases h
  rw [headerValue_eq_ok hcodec hv]

theorem extraHeaders_eq_ok (hcodec : codec.Lawful) {key : String} {hs : HeaderMap}
    (h : extraHeaders codec id key = .ok hs) : hs = assertedExtras id key := by
  unfold extraHeaders at h
  unfold assertedExtras
  cases hl : id.extra.lookup key with
  | none =>
    simp only [hl] at h
    cases h
    rfl
  | some values =>
    simp only [hl] at h
    cases hn : codec.headerName ("impersonate-extra-" ++ key) with
    | none => simp [hn] at h
    | some name =>
      simp only [hn] at h
      rw [headersFor_eq_ok hcodec h, hcodec.headerName _ _ hn]
      rfl

theorem impersonateLayer_eq_ok (hcodec : codec.Lawful) {hs : HeaderMap}
    (h : impersonateLayer codec id extraKeys = .ok hs) : hs = assertedHeaders id extraKeys := by
  obtain ⟨user, huser, h⟩ := bind_eq_ok.mp h
  obtain ⟨groups, hgroups, h⟩ := bind_eq_ok.mp h
  obtain ⟨extras, hextras, h⟩ := bind_eq_ok.mp h
  cases h
  have hextras : extras = extraKeys.map (assertedExtras id) :=
    map_of_mapM (fun _ _ h => extraHeaders_eq_ok hcodec h) hextras
  rw [headerValue_eq_ok hcodec huser, headersFor_eq_ok hcodec hgroups, hextras, ← List.flatMap_def]
  rfl

theorem toLower_eq (s : String) : s.toLower = s.map Char.toLower := rfl

theorem impersonates_extra (key : String) : impersonates (impersonateExtra key) = true := by
  unfold impersonates impersonateExtra
  simp [toLower_eq, impersonatePrefix]

theorem mem_assertedHeaders {e : HeaderName × HeaderValue} :
    e ∈ assertedHeaders id extraKeys ↔
      e = (impersonateUser, utf8 id.user) ∨
      (∃ g ∈ id.groups, e = (impersonateGroup, utf8 g)) ∨
      ∃ key ∈ extraKeys, ∃ values, id.extra.lookup key = some values ∧
        ∃ value ∈ values, e = (impersonateExtra key, utf8 value) := by
  simp only [assertedHeaders, assertedExtras, List.cons_append, List.mem_cons, List.mem_append,
    List.mem_map, List.mem_flatMap, eq_comm (b := e)]
  refine or_congr_right (or_congr_right (exists_congr fun key => and_congr_right fun _ => ?_))
  cases id.extra.lookup key <;> simp

theorem impersonation_assertedHeaders :
    (assertedHeaders id extraKeys).impersonation = assertedHeaders id extraKeys := by
  apply List.filter_eq_self.mpr
  intro e he
  rcases mem_assertedHeaders.mp he with rfl | ⟨g, -, rfl⟩ | ⟨key, -, values, -, value, -, rfl⟩
  · exact (by decide : impersonates impersonateUser = true)
  · exact (by decide : impersonates impersonateGroup = true)
  · exact impersonates_extra key

theorem mem_foldl_remove {names : List HeaderName} {headers : HeaderMap}
    {e : HeaderName × HeaderValue} (h : e ∈ names.foldl HeaderMap.remove headers) :
    e ∈ headers ∧ e.1 ∉ names := by
  induction names generalizing headers with
  | nil => exact ⟨h, by simp⟩
  | cons name rest ih =>
    obtain ⟨he, hrest⟩ := ih h
    obtain ⟨he, hne⟩ := List.mem_filter.mp he
    exact ⟨he, by simpa [hrest] using hne⟩

theorem impersonation_setImpersonation (headers wanted : HeaderMap) :
    (setImpersonation headers wanted).impersonation = wanted.impersonation := by
  have hnone : HeaderMap.impersonation (((headers.map (·.1)).filter impersonates).foldl
      HeaderMap.remove headers) = [] := by
    apply List.filter_eq_nil_iff.mpr
    intro e he hname
    obtain ⟨he, hgone⟩ := mem_foldl_remove he
    exact hgone (List.mem_filter.mpr ⟨List.mem_map_of_mem he, hname⟩)
  unfold setImpersonation
  rw [HeaderMap.impersonation, List.filter_append]
  exact (congrArg (· ++ _) hnone).trans (List.nil_append _)

theorem getAll_user_assertedHeaders :
    (assertedHeaders id extraKeys).getAll impersonateUser = [utf8 id.user] := by
  have hrest : ∀ e ∈ id.groups.map (fun g => (impersonateGroup, utf8 g)) ++
      extraKeys.flatMap (assertedExtras id), ¬ decide (e.1 = impersonateUser) = true := by
    intro e he
    rw [decide_eq_true_eq]
    rcases List.mem_append.mp he with he | he
    · obtain ⟨g, -, rfl⟩ := List.mem_map.mp he
      exact (by decide : impersonateGroup ≠ impersonateUser)
    · obtain ⟨key, -, he⟩ := List.mem_flatMap.mp he
      obtain ⟨value, -, rfl⟩ := List.mem_map.mp he
      intro h
      have := congrArg String.toList h
      simp [impersonateExtra, toLower_eq, impersonateUser] at this
  unfold assertedHeaders HeaderMap.getAll
  rw [List.cons_append, List.filter_cons_of_pos (by simp), List.filter_eq_nil_iff.mpr hrest]
  rfl

/-! ## One key, one subject -/

theorem lookup_extras (key : String) :
    ((IdentityKey.new id).extras.lookup key) = (id.extra.lookup key).map canonical := by
  unfold IdentityKey.new
  induction id.extra with
  | nil => rfl
  | cons e rest ih =>
    obtain ⟨k, v⟩ := e
    simp only [List.map_cons, List.lookup_cons, ih]
    cases key == k <;> rfl

theorem mem_assertedHeaders_of_key (h : IdentityKey.new id = IdentityKey.new id')
    (e : HeaderName × HeaderValue) :
    e ∈ assertedHeaders id extraKeys ↔ e ∈ assertedHeaders id' extraKeys := by
  have huser : id.user = id'.user := congrArg IdentityKey.user h
  have hgroups := canonical_eq_iff.mp (congrArg IdentityKey.groups h)
  have hextra : ∀ key, (id.extra.lookup key).map canonical =
      (id'.extra.lookup key).map canonical := by
    intro key
    rw [← lookup_extras, ← lookup_extras, h]
  rw [mem_assertedHeaders, mem_assertedHeaders, huser]
  simp only [hgroups]
  refine or_congr_right (or_congr_right (exists_congr fun key => and_congr_right fun _ => ?_))
  have hkey := hextra key
  cases hl : id.extra.lookup key with
  | none =>
    cases hl' : id'.extra.lookup key with
    | none => simp
    | some values' => simp [hl, hl'] at hkey
  | some values =>
    cases hl' : id'.extra.lookup key with
    | none => simp [hl, hl'] at hkey
    | some values' =>
      simp only [hl, hl', Option.map_some, Option.some.injEq, canonical_eq_iff] at hkey
      simp [hkey]

theorem assertedHeaders_eq_of_key (h : IdentityKey.new id = IdentityKey.new id')
    (hid : id.Canonical) (hid' : id'.Canonical) :
    assertedHeaders id extraKeys = assertedHeaders id' extraKeys := by
  have huser : id.user = id'.user := congrArg IdentityKey.user h
  have hgroups : id.groups = id'.groups := by
    rw [← hid.groups, ← hid'.groups]
    exact congrArg IdentityKey.groups h
  have hself : ∀ {i : Identity}, i.Canonical → (i.extra.map fun e => (e.1, canonical e.2)) = i.extra := by
    intro i hi
    conv_rhs => rw [← List.map_id i.extra]
    apply List.map_congr_left
    intro e he
    rw [hi.extra e he]
    rfl
  have hextra : id.extra = id'.extra := by
    rw [← hself hid, ← hself hid']
    exact congrArg IdentityKey.extras h
  simp only [assertedHeaders, huser, hgroups]
  unfold assertedExtras
  rw [hextra]

end layer

/-! ## A backend at work -/

/-- A request that was served, and the headers of the API call made for it. -/
structure Served where
  inbound : HeaderMap
  identity : Identity
  sent : HeaderMap
deriving DecidableEq

structure UiWorld where
  cache : ClientCache
  clock : Nat
  /-- The identities a client was asked for. -/
  asked : List Identity
  /-- Those of them that no request came with. -/
  others : List Identity
  /-- The clients that were handed out, each with the identity it was for. -/
  given : List (Identity × Client)
  served : List Served
deriving DecidableEq

def UiWorld.start (base : KubeConfig) (limits : CacheLimits) (extraKeys : List String) :
    UiWorld where
  cache := .new base limits extraKeys
  clock := 0
  asked := []
  others := []
  given := []
  served := []

inductive UiEvent
  /-- A request comes in; `outbound` is what kube puts on the call made for it. -/
  | serve (inbound outbound : HeaderMap) (kube : Option String)
  /-- A client is asked for by other means. -/
  | ask (identity : Identity) (kube : Option String)
  /-- The number of cached clients is read. -/
  | measure
  | wait (time : Nat)
  /-- The map shows its entries in another order. -/
  | rehash (entries : StampedCache IdentityKey Client)
deriving DecidableEq

def UiWorld.give (codec : Codec) (w : UiWorld) (identity : Identity) (kube : Option String) :
    UiWorld × Option Client :=
  let (cache, result) := w.cache.clientFor codec w.clock identity kube
  let w := { w with cache, asked := identity :: w.asked }
  match result with
  | .ok client => ({ w with given := (identity, client) :: w.given }, some client)
  | .error _ => (w, none)

def uiStep (codec : Codec) (stack : KubeStack) (cfg : AuthConfig) (w : UiWorld) :
    UiEvent → Option UiWorld
  | .serve inbound outbound kube =>
    match identify codec inbound cfg with
    | .error _ => some w
    | .ok identity =>
      let (w, client) := w.give codec identity kube
      match client with
      | some client =>
        some { w with served := ⟨inbound, identity, client.send stack outbound⟩ :: w.served }
      | none => some w
  | .ask identity kube =>
    some { (w.give codec identity kube).1 with others := identity :: w.others }
  | .measure => some { w with cache := (w.cache.len w.clock).1 }
  | .wait time => some { w with clock := w.clock + time }
  | .rehash entries =>
    if entries.Perm w.cache.entries then some { w with cache := { w.cache with entries } } else none

def Built (base : KubeConfig) (extraKeys : List String) (asked : List Identity)
    (key : IdentityKey) (client : Client) : Prop :=
  client.base = sanitizeBase base ∧
    ∃ id ∈ asked, IdentityKey.new id = key ∧ client.layer = assertedHeaders id extraKeys

theorem Built.more {base : KubeConfig} {extraKeys : List String} {asked : List Identity}
    {key : IdentityKey} {client : Client} (h : Built base extraKeys asked key client)
    (id : Identity) : Built base extraKeys (id :: asked) key client := by
  obtain ⟨hbase, other, hasked, hrest⟩ := h
  exact ⟨hbase, other, List.mem_cons_of_mem _ hasked, hrest⟩

section runs

variable {codec : Codec} {stack : KubeStack} {cfg : AuthConfig} {base : KubeConfig}
  {limits : CacheLimits} {extraKeys : List String} {w w' : UiWorld}

/-- What a cache is made of. -/
structure CacheInv (base : KubeConfig) (extraKeys : List String) (asked : List Identity)
    (c : ClientCache) : Prop where
  sanitized : c.base = sanitizeBase base
  keys : c.extraKeys = extraKeys
  built : ∀ e ∈ c.entries, Built base extraKeys asked e.1 e.2.value

theorem CacheInv.of_subset {asked : List Identity} {c : ClientCache}
    (h : CacheInv base extraKeys asked c) {entries : StampedCache IdentityKey Client}
    (hsub : ∀ e ∈ entries, e ∈ c.entries) :
    CacheInv base extraKeys asked { c with entries } :=
  ⟨h.sanitized, h.keys, fun e he => h.built e (hsub e he)⟩

theorem CacheInv.more {asked : List Identity} {c : ClientCache}
    (h : CacheInv base extraKeys asked c) (id : Identity) :
    CacheInv base extraKeys (id :: asked) c :=
  ⟨h.sanitized, h.keys, fun e he => (h.built e he).more id⟩

theorem clientFor_spec (hcodec : codec.Lawful) {asked : List Identity} {c : ClientCache}
    (h : CacheInv base extraKeys asked c) (now : Nat) (id : Identity) (kube : Option String) :
    CacheInv base extraKeys (id :: asked) (c.clientFor codec now id kube).1 ∧
      ∀ client, (c.clientFor codec now id kube).2 = .ok client →
        Built base extraKeys (id :: asked) (IdentityKey.new id) client := by
  have hsweep : CacheInv base extraKeys (id :: asked)
      { c with entries := c.entries.sweep c.limits.ttl now } :=
    (h.more id).of_subset fun e he => StampedCache.mem_of_mem_sweep he
  unfold ClientCache.clientFor
  dsimp only
  cases hfind : (c.entries.sweep c.limits.ttl now).find (IdentityKey.new id) with
  | some entry =>
    have hbuilt := hsweep.built _ (StampedCache.mem_of_find hfind)
    refine ⟨⟨h.sanitized, h.keys, fun e he => ?_⟩, ?_⟩
    · rcases StampedCache.mem_insert he with he | rfl
      · exact hsweep.built e he
      · exact hbuilt
    · rintro client ⟨⟩
      exact hbuilt
  | none =>
    cases hb : c.build codec id kube with
    | error e =>
      refine ⟨hsweep, ?_⟩
      rintro client ⟨⟩
    | ok client =>
      have hbuilt : Built base extraKeys (id :: asked) (IdentityKey.new id) client := by
        unfold ClientCache.build at hb
        cases hl : impersonateLayer codec id c.extraKeys with
        | error e => simp [hl] at hb
        | ok layer =>
          cases kube with
          | some message => simp [hl] at hb
          | none =>
            simp only [hl, Except.ok.injEq] at hb
            subst hb
            refine ⟨h.sanitized, id, List.mem_cons_self, rfl, ?_⟩
            rw [← h.keys]
            exact impersonateLayer_eq_ok hcodec hl
      dsimp only
      split
      · refine ⟨⟨h.sanitized, h.keys, fun e he => ?_⟩, ?_⟩
        · rcases StampedCache.mem_insert he with he | rfl
          · exact hsweep.built e (StampedCache.mem_of_mem_makeRoom he)
          · exact hbuilt
        · rintro client ⟨⟩
          exact hbuilt
      · refine ⟨hsweep, ?_⟩
        rintro client ⟨⟩
        exact hbuilt

structure UiInv (codec : Codec) (stack : KubeStack) (cfg : AuthConfig) (base : KubeConfig)
    (extraKeys : List String) (w : UiWorld) : Prop where
  cache : CacheInv base extraKeys w.asked w.cache
  known : ∀ id ∈ w.asked, id ∈ w.others ∨ id.Canonical
  given : ∀ g ∈ w.given, Built base extraKeys w.asked (.new g.1) g.2
  served : ∀ s ∈ w.served, identify codec s.inbound cfg = .ok s.identity ∧
    s.identity ∈ w.asked ∧ ∃ client outbound,
      Built base extraKeys w.asked (.new s.identity) client ∧ s.sent = client.send stack outbound

theorem UiInv.start : UiInv codec stack cfg base extraKeys (.start base limits extraKeys) where
  cache := ⟨rfl, rfl, fun e he => by cases he⟩
  known id hid := by cases hid
  given g hg := by cases hg
  served s hs := by cases hs

theorem UiInv.give (hcodec : codec.Lawful) (h : UiInv codec stack cfg base extraKeys w)
    (id : Identity) (kube : Option String) {others : List Identity}
    (hothers : ∀ other ∈ w.others, other ∈ others) (hid : id ∈ others ∨ id.Canonical) :
    UiInv codec stack cfg base extraKeys { (w.give codec id kube).1 with others } ∧
      id ∈ (w.give codec id kube).1.asked ∧
      ∀ client, (w.give codec id kube).2 = some client →
        Built base extraKeys (w.give codec id kube).1.asked (.new id) client := by
  obtain ⟨hcache, hbuilt⟩ := clientFor_spec hcodec h.cache w.clock id kube
  have hknown : ∀ other ∈ id :: w.asked, other ∈ others ∨ other.Canonical := by
    intro other hother
    rcases List.mem_cons.mp hother with rfl | hother
    · exact hid
    · exact (h.known other hother).imp_left (hothers other)
  have hserved : ∀ s ∈ w.served, identify codec s.inbound cfg = .ok s.identity ∧
      s.identity ∈ id :: w.asked ∧ ∃ client outbound,
        Built base extraKeys (id :: w.asked) (.new s.identity) client ∧
          s.sent = client.send stack outbound := by
    intro s hs
    obtain ⟨hid, hasked, client, outbound, hclient, hsent⟩ := h.served s hs
    exact ⟨hid, List.mem_cons_of_mem _ hasked, client, outbound, hclient.more id, hsent⟩
  unfold UiWorld.give
  dsimp only
  cases hr : (w.cache.clientFor codec w.clock id kube).2 with
  | ok client =>
    refine ⟨⟨hcache, hknown, ?_, hserved⟩, List.mem_cons_self, ?_⟩
    · intro g hg
      rcases List.mem_cons.mp hg with rfl | hg
      · exact hbuilt client hr
      · exact (h.given g hg).more id
    · rintro _ ⟨⟩
      exact hbuilt client hr
  | error e =>
    refine ⟨⟨hcache, hknown, fun g hg => (h.given g hg).more id, hserved⟩,
      List.mem_cons_self, ?_⟩
    rintro _ ⟨⟩

theorem give_others (id : Identity) (kube : Option String) :
    (w.give codec id kube).1.others = w.others := by
  unfold UiWorld.give
  dsimp only
  cases (w.cache.clientFor codec w.clock id kube).2 <;> rfl

theorem UiInv.step (hcodec : codec.Lawful) (h : UiInv codec stack cfg base extraKeys w)
    {e : UiEvent} (hstep : uiStep codec stack cfg w e = some w') :
    UiInv codec stack cfg base extraKeys w' := by
  cases e with
  | serve inbound outbound kube =>
    unfold uiStep at hstep
    cases hid : identify codec inbound cfg with
    | error e =>
      simp only [hid] at hstep
      cases hstep
      exact h
    | ok id =>
      have hcanonical := (extractIdentity_eq_ok (extractIdentity_of_identify hid)).1
      obtain ⟨hgive, hasked, hclient⟩ :=
        h.give hcodec id kube (fun _ hother => hother) (.inr hcanonical)
      have hothers : (w.give codec id kube).1.others = w.others := give_others id kube
      rw [← hothers] at hgive
      simp only [hid] at hstep
      cases hc : (w.give codec id kube).2 with
      | none =>
        simp only [hc] at hstep
        cases hstep
        exact hgive
      | some client =>
        simp only [hc] at hstep
        cases hstep
        refine ⟨hgive.cache, hgive.known, hgive.given, fun s hs => ?_⟩
        rcases List.mem_cons.mp hs with rfl | hs
        · exact ⟨hid, hasked, client, outbound, hclient client hc, rfl⟩
        · exact hgive.served s hs
  | ask id kube =>
    cases hstep
    exact (h.give hcodec id kube (fun _ => List.mem_cons_of_mem _) (.inl List.mem_cons_self)).1
  | measure =>
    cases hstep
    exact ⟨h.cache.of_subset fun e he => StampedCache.mem_of_mem_sweep he, h.known, h.given,
      h.served⟩
  | wait time =>
    cases hstep
    exact ⟨h.cache, h.known, h.given, h.served⟩
  | rehash entries =>
    simp only [uiStep, Option.ite_none_right_eq_some] at hstep
    obtain ⟨hperm, ⟨⟩⟩ := hstep
    exact ⟨h.cache.of_subset fun e he => hperm.mem_iff.mp he, h.known, h.given, h.served⟩

theorem impersonation_send (hstack : stack.Quiet) {asked : List Identity} {key : IdentityKey}
    {client : Client} (h : Built base extraKeys asked key client) (outbound : HeaderMap) :
    (client.send stack outbound).impersonation = client.layer := by
  obtain ⟨hbase, id, -, -, hlayer⟩ := h
  unfold Client.send
  rw [hstack _ _ (hbase ▸ sanitizeBase_silent base), impersonation_setImpersonation, hlayer,
    impersonation_assertedHeaders]

structure Asserts (headers : HeaderMap) (id : Identity) (extraKeys : List String) : Prop where
  oneUser : headers.getAll impersonateUser = [utf8 id.user]
  same : ∀ e, e ∈ headers ↔ e ∈ assertedHeaders id extraKeys

theorem Built.asserts {asked : List Identity} {id : Identity} {client : Client}
    (h : Built base extraKeys asked (.new id) client) : Asserts client.layer id extraKeys := by
  obtain ⟨-, other, -, hkey, hlayer⟩ := h
  have huser : other.user = id.user := congrArg IdentityKey.user hkey
  rw [hlayer]
  exact ⟨huser ▸ getAll_user_assertedHeaders, mem_assertedHeaders_of_key hkey⟩

theorem Built.exact {asked : List Identity} {id : Identity} {client : Client}
    (h : Built base extraKeys asked (.new id) client) (hid : id.Canonical)
    (hasked : ∀ other ∈ asked, other.Canonical) :
    client.layer = assertedHeaders id extraKeys := by
  obtain ⟨-, other, hother, hkey, hlayer⟩ := h
  rw [hlayer, assertedHeaders_eq_of_key hkey (hasked other hother) hid]

def SafeHeaders (headers : HeaderMap) : Prop :=
  ∀ p, isForbiddenPrincipal p = true →
    (impersonateUser, utf8 p) ∉ headers ∧ (impersonateGroup, utf8 p) ∉ headers

theorem safeHeaders_assertedHeaders {id : Identity} (h : id.Unprivileged) :
    SafeHeaders (assertedHeaders id extraKeys) := by
  have hextra : ∀ key, impersonateExtra key ≠ impersonateUser ∧
      impersonateExtra key ≠ impersonateGroup := by
    intro key
    constructor <;> intro h <;> have := congrArg String.toList h <;>
      simp [impersonateExtra, toLower_eq, impersonateUser, impersonateGroup] at this
  intro p hp
  constructor
  · intro hmem
    rcases mem_assertedHeaders.mp hmem with he | ⟨g, -, he⟩ | ⟨key, -, values, -, value, -, he⟩
    · rw [utf8_inj (Prod.mk.inj he).2, h.user] at hp
      cases hp
    · exact absurd (Prod.mk.inj he).1 (by decide)
    · exact (hextra key).1 (Prod.mk.inj he).1.symm
  · intro hmem
    rcases mem_assertedHeaders.mp hmem with he | ⟨g, hg, he⟩ | ⟨key, -, values, -, value, -, he⟩
    · exact absurd (Prod.mk.inj he).1 (by decide)
    · rw [utf8_inj (Prod.mk.inj he).2, h.groups g hg] at hp
      cases hp
    · exact (hextra key).2 (Prod.mk.inj he).1.symm

/-- Requests that agree on the identity headers lead to the same impersonation
headers: one user, the canonical groups and the allowed extras; and every
client that was handed out asserts the identity it was asked for. The headers
agree in their order too unless somebody asks with groups that are out of order,
which no request does. -/
theorem impersonation_integrity (hcodec : codec.Lawful) (hstack : stack.Quiet) {hatch : Bool}
    {secret : Except ConfigError (Option (List UInt8))} {args : AuthArgs}
    (hcfg : resolveAuth codec hatch secret args = .ok cfg)
    (hrun : Reaches (uiStep codec stack cfg) (fun _ _ => True)
      (.start base limits cfg.extraKeys) w) :
    (∀ s ∈ w.served,
      identify codec s.inbound cfg = .ok s.identity ∧
      Asserts s.sent.impersonation s.identity cfg.extraKeys ∧
      (s.identity.groups.Pairwise (· ≤ ·) ∧ s.identity.groups.Nodup) ∧
      ((∀ id ∈ w.others, id.Canonical) →
        s.sent.impersonation = assertedHeaders s.identity cfg.extraKeys) ∧
      (s.identity.source = .trustedHeaders ∨ hatch = false → SafeHeaders s.sent.impersonation)) ∧
    (∀ s ∈ w.served, ∀ s' ∈ w.served, AgreeOn cfg s.inbound s'.inbound →
      (∀ e, e ∈ s.sent.impersonation ↔ e ∈ s'.sent.impersonation) ∧
      ((∀ id ∈ w.others, id.Canonical) → s.sent.impersonation = s'.sent.impersonation)) ∧
    ∀ g ∈ w.given, Asserts g.2.layer g.1 cfg.extraKeys ∧
      (g.1.Canonical → (∀ id ∈ w.others, id.Canonical) →
        g.2.layer = assertedHeaders g.1 cfg.extraKeys) := by
  have hinv : UiInv codec stack cfg base cfg.extraKeys w :=
    hrun.invariant _ .start fun _ _ _ h _ hstep => h.step hcodec hstep
  have hasked : (∀ id ∈ w.others, id.Canonical) → ∀ id ∈ w.asked, id.Canonical :=
    fun hothers id hid => (hinv.known id hid).elim (hothers id) fun hcanonical => hcanonical
  have hserved : ∀ s ∈ w.served, identify codec s.inbound cfg = .ok s.identity ∧
      s.identity.Canonical ∧ Asserts s.sent.impersonation s.identity cfg.extraKeys ∧
      ((∀ id ∈ w.others, id.Canonical) →
        s.sent.impersonation = assertedHeaders s.identity cfg.extraKeys) := by
    intro s hs
    obtain ⟨hid, -, client, outbound, hclient, hsent⟩ := hinv.served s hs
    have hcanonical := (extractIdentity_eq_ok (extractIdentity_of_identify hid)).1
    rw [hsent, impersonation_send hstack hclient]
    exact ⟨hid, hcanonical, hclient.asserts, fun h => hclient.exact hcanonical (hasked h)⟩
  refine ⟨fun s hs => ?_, fun s hs s' hs' hagree => ?_, fun g hg => ?_⟩
  · obtain ⟨hid, hcanonical, hasserts, hexact⟩ := hserved s hs
    refine ⟨hid, hasserts, ?_, hexact, fun htrusted p hp => ?_⟩
    · rw [← hcanonical.groups]
      exact ⟨canonical_pairwise _, canonical_nodup _⟩
    · have hplain := (extractIdentity_eq_ok (extractIdentity_of_identify hid)).2
        (htrusted.imp_right fun hclosed => resolveAuth_anonymous (hclosed ▸ hcfg))
      rw [hasserts.same, hasserts.same]
      exact safeHeaders_assertedHeaders hplain p hp
  · obtain ⟨hid, -, hasserts, hexact⟩ := hserved s hs
    obtain ⟨hid', -, hasserts', hexact'⟩ := hserved s' hs'
    have hsame : s.identity = s'.identity := identify_congr hagree hid hid'
    refine ⟨fun e => ?_, fun hothers => ?_⟩
    · rw [hasserts.same, hasserts'.same, hsame]
    · rw [hexact hothers, hexact' hothers, hsame]
  · have hbuilt := hinv.given g hg
    exact ⟨hbuilt.asserts, fun hid hothers => hbuilt.exact hid (hasked hothers)⟩

end runs

section forged

/-- Texts are sent as their bytes, and one list of groups is understood. -/
def plainCodec : Codec where
  toStr v := some (String.ofList (v.map fun b => Char.ofNat b.toNat))
  fromStr s := some (utf8 s)
  headerName s := some s.toLower
  decodeBase64 _ := none
  parseJsonStrings bytes :=
    if bytes = utf8 "[\"sre\",\"dev\"]" then .ok ["sre", "dev"] else .error "unexpected input"

theorem plainCodec_lawful : plainCodec.Lawful where
  fromStr _ _ h := (Option.some.inj h).symm
  headerName _ _ h := (Option.some.inj h).symm

def addingStack : KubeStack := fun config headers =>
  headers ++ (config.authInfo.impersonate.toList.map fun user => (impersonateUser, utf8 user)) ++
    (config.authInfo.impersonateGroups.getD []).map (fun g => (impersonateGroup, utf8 g)) ++
    config.headers

theorem addingStack_quiet : addingStack.Quiet := by
  intro config headers h
  unfold addingStack
  rw [h.impersonate, h.impersonateGroups]
  simpa [HeaderMap.impersonation] using h.headers

def proxyArgs : AuthArgs where
  userHeader := some "X-User"
  groupsHeader := some "X-Groups"
  groupsSeparator := ","
  groupsFormat := .json
  emailHeader := none
  impersonateExtraKeys := none
  allowedGroups := none
  anonymousUser := none
  anonymousGroups := none
  anonymousFallback := false

def proxyConfig : AuthConfig where
  mode := .headers "x-user" (some "x-groups") none
  groupsSeparator := ","
  groupsFormat := .json
  emailHeader := none
  extraKeys := []
  allowedGroups := none
  proxySecret := none

def adminBase : KubeConfig where
  authInfo :=
    { impersonate := some "admin", impersonateUid := none
      impersonateGroups := some ["system:masters"], impersonateUserExtra := none }
  headers := [("impersonate-group", utf8 "system:masters")]

def honestRequest : HeaderMap :=
  [("x-user", utf8 "ada"), ("x-groups", utf8 "[\"sre\",\"dev\"]")]

def forgedRequest : HeaderMap := ("impersonate-group", utf8 "system:masters") :: honestRequest

theorem impersonation_integrity_forged :
    ∃ (w : UiWorld) (s s' : Served), w.served = [s', s] ∧
      s.inbound = honestRequest ∧ s'.inbound = forgedRequest ∧
      s.sent.impersonation = s'.sent.impersonation ∧ SafeHeaders s'.sent.impersonation := by
  obtain ⟨w, hreach, hinbound, hothers⟩ : ∃ w, Reaches (uiStep plainCodec addingStack proxyConfig)
      (fun _ _ => True) (.start adminBase ⟨8, 600⟩ proxyConfig.extraKeys) w ∧
        w.served.map (·.inbound) = [forgedRequest, honestRequest] ∧ w.others = [] :=
    exists_reaches [.serve honestRequest [] none, .serve forgedRequest forgedRequest none]
      (by decide +kernel)
  have hall : ∀ id ∈ w.others, id.Canonical := by
    rw [hothers]
    exact fun id hid => by cases hid
  obtain ⟨s', rest, hserved, hs', hrest⟩ := List.map_eq_cons_iff.mp hinbound
  obtain ⟨s, rest, rfl, hs, hrest⟩ := List.map_eq_cons_iff.mp hrest
  obtain rfl := List.map_eq_nil_iff.mp hrest
  have hcfg : resolveAuth plainCodec false (.ok none) proxyArgs = .ok proxyConfig := by
    decide +kernel
  have h := impersonation_integrity plainCodec_lawful addingStack_quiet hcfg hreach
  rw [hserved] at h
  refine ⟨w, s, s', hserved, hs, hs', ?_, ?_⟩
  · refine (h.2.1 s (by simp) s' (by simp) ?_).2 hall
    rw [hs, hs']
    unfold AgreeOn
    decide +kernel
  · exact (h.1 s' (by simp)).2.2.2.2 (.inr rfl)

end forged

end Kopiur.Ui
