import BackendGauntlet.ObjectStoreAuth

/-! The gate against the router, which read the same decoded path in two ways. -/
namespace BackendGauntlet.ObjectStore

open PyText Percent Option

inductive Handler
  | putObject
  | getObject
  | headObject
  | deleteObject
  | postObject
deriving DecidableEq

def Handler.method : Handler → Text
  | .putObject => "PUT".toList
  | .getObject => "GET".toList
  | .headObject => "HEAD".toList
  | .deleteObject => "DELETE".toList
  | .postObject => "POST".toList

def objectPath (bucket key : Text) : Text := '/' :: (bucket ++ '/' :: key)

/-- The documented route pattern: `{bucket}` is one non-empty segment and `{key:path}` the rest,
less one final newline. Only `PUT` is known to reach its handler. -/
structure ObjectRouter (route : Text → Text → Option (Handler × Text × Text)) : Prop where
  sound : ∀ method path h bucket key, route method path = some (h,bucket,key) →
    method = h.method ∧ bucket ≠ [] ∧ '/' ∉ bucket ∧
      (path = objectPath bucket key ∨ path = objectPath bucket (key ++ ['\n']))
  reaches_put : ∀ bucket key, bucket ≠ [] → '/' ∉ bucket → '\n' ∉ key →
    route "PUT".toList (objectPath bucket key) = some (.putObject,bucket,key)

/-- No request reaches an object handler unless the gate authorized its key, less a final newline.
-/
def Mediated (upper : Text → Text) (mac : Text → Text → Text)
    (route : Text → Text → Option (Handler × Text × Text)) (config : AuthConfig)
    (bucket : Bucket) : Prop :=
  ∀ (r : Request) (now : Instant) (h : Handler) (key : Key),
    route r.method r.path = some (h,bucket.text,key.text) →
    objectAuthMiddleware upper mac (some config) r now = .forward →
    authorizeRequest upper mac config r bucket.text key.text now = .ok () ∨
      (r.path = objectPath bucket.text (key.text ++ ['\n']) ∧
        authorizeRequest upper mac config r bucket.text (key.text ++ ['\n']) now = .ok ())

def anonymousPut (path : Text) : Request := ⟨"PUT".toList,path,[],[]⟩

theorem authorizeRequest_anonymous (upper : Text → Text) (mac : Text → Text → Text)
    (config : AuthConfig) (path bucket key : Text) (now : Instant) :
    authorizeRequest upper mac config (anonymousPut path) bucket key now =
      .error .accessDenied := rfl

theorem forward_of_presign (upper : Text → Text) (mac : Text → Text → Text)
    (config : AuthConfig) (r : Request) (key : Text) (hk : key ≠ [])
    (hp : r.path = objectPath "presign".toList key) (now : Instant) :
    objectAuthMiddleware upper mac (some config) r now = .forward := by
  have hg := gatedPath_object "presign".toList key (by decide) (by decide) hk
  rw [if_pos rfl] at hg
  simp only [objectAuthMiddleware, hp, objectPath, hg]

theorem mediated_of_ne_presign (upper : Text → Text) (mac : Text → Text → Text)
    (route : Text → Text → Option (Handler × Text × Text)) (hr : ObjectRouter route)
    (config : AuthConfig) {bucket : Bucket} (hb : bucket.text ≠ "presign".toList) :
    Mediated upper mac route config bucket := by
  intro r now h key hroute hf
  obtain ⟨_,hb0,hbs,hpath⟩ := hr.sound _ _ _ _ _ hroute
  have hgate (k : Text) (hk : k ≠ []) (hp : r.path = objectPath bucket.text k) :
      authorizeRequest upper mac config r bucket.text k now = .ok () := by
    have hg := gatedPath_object bucket.text k hb0 hbs hk
    rw [if_neg hb, show '/' :: (bucket.text ++ '/' :: k) = r.path from hp.symm] at hg
    exact (forward_iff_authorized upper mac config now hg).mp hf
  rcases hpath with hp | hp
  · exact Or.inl (hgate key.text (key_ne_nil key) hp)
  · exact Or.inr ⟨hp,hgate _ (by simp) hp⟩

/-- Every object route is mediated exactly when the bucket is not named as the minting endpoint. -/
theorem mediated_iff (upper : Text → Text) (mac : Text → Text → Text)
    (route : Text → Text → Option (Handler × Text × Text)) (hr : ObjectRouter route)
    (config : AuthConfig) (bucket : Bucket) :
    Mediated upper mac route config bucket ↔ bucket.text ≠ "presign".toList := by
  constructor
  · intro hm hb
    let key : Key := ⟨"x".toList,rfl⟩
    have hroute := hr.reaches_put bucket.text key.text (bucket_ne_nil bucket)
      (bucket_plain bucket).1 (by decide)
    have hfwd := forward_of_presign upper mac config
      (anonymousPut (objectPath bucket.text key.text)) key.text (by decide) (by rw [← hb]; rfl)
      ⟨0,by decide⟩
    rcases hm (anonymousPut (objectPath bucket.text key.text)) ⟨0,by decide⟩ .putObject key
      hroute hfwd with ha | ⟨_,ha⟩
    · rw [authorizeRequest_anonymous] at ha
      cases ha
    · rw [authorizeRequest_anonymous] at ha
      cases ha
  · exact mediated_of_ne_presign upper mac route hr config

def keyMatch (rest : Text) : Option Text :=
  match cut '\n' rest with
  | none => some rest
  | some (k,[]) => some k
  | some _ => none

def objectRoutes (method path : Text) : Option (Handler × Text × Text) := do
  let h ← [Handler.putObject, .getObject, .headObject, .deleteObject, .postObject].find?
    (fun h => h.method == method)
  match path with
  | '/' :: p =>
    let (bucket,rest) ← cut '/' p
    if bucket = [] then none
    else
      let key ← keyMatch rest
      some (h,bucket,key)
  | _ => none

theorem keyMatch_eq_some {rest k : Text} (hk : keyMatch rest = some k) :
    rest = k ∨ rest = k ++ ['\n'] := by
  unfold keyMatch at hk
  split at hk
  · exact Or.inl (some.inj hk)
  · next k' hc =>
    rw [← some.inj hk]
    exact Or.inr ((cut_eq_some_iff '\n' rest k' []).mp hc).1
  · cases hk

theorem keyMatch_plain {key : Text} (hn : '\n' ∉ key) : keyMatch key = some key := by
  rw [keyMatch, (cut_eq_none_iff '\n' key).mpr hn]

theorem keyMatch_ne_self {key : Text} (hn : '\n' ∈ key) : keyMatch key ≠ some key := by
  unfold keyMatch
  intro h
  split at h
  · rename_i hc
    exact (cut_eq_none_iff '\n' key).mp hc hn
  · rename_i k hc
    have hk : key = k ++ ['\n'] := ((cut_eq_some_iff '\n' key k []).mp hc).1
    have hlen := congrArg List.length (hk.symm.trans (some.inj h).symm)
    simp at hlen
  · cases h

theorem objectRoutes_objectRouter : ObjectRouter objectRoutes where
  sound := by
    intro method path h bucket key hroute
    unfold objectRoutes at hroute
    obtain ⟨h',hh,hpat⟩ := bind_eq_some_iff.mp hroute
    clear hroute
    have hmethod : h'.method = method := by
      simpa using List.find?_some hh
    split at hpat
    · next p =>
      obtain ⟨⟨b,rest⟩,hcut,hpat⟩ := bind_eq_some_iff.mp hpat
      obtain ⟨hp,hbs⟩ := (cut_eq_some_iff '/' p b rest).mp hcut
      simp only at hpat
      split_ifs at hpat with hb0
      obtain ⟨k,hk,hpat⟩ := bind_eq_some_iff.mp hpat
      simp only [some.injEq, Prod.mk.injEq] at hpat
      obtain ⟨rfl,rfl,rfl⟩ := hpat
      refine ⟨hmethod.symm,hb0,hbs,?_⟩
      rcases keyMatch_eq_some hk with hr | hr
      · exact Or.inl (by rw [hp, hr, objectPath])
      · exact Or.inr (by rw [hp, hr, objectPath])
    · cases hpat
  reaches_put := by
    intro bucket key hb hs hn
    have hcut := (cut_eq_some_iff '/' (bucket ++ '/' :: key) bucket key).mpr ⟨rfl,hs⟩
    have hfind : [Handler.putObject, .getObject, .headObject, .deleteObject, .postObject].find?
        (fun h => h.method == "PUT".toList) = some .putObject := by decide
    simp only [objectRoutes, hfind, objectPath, hcut, bind_eq_bind, bind_some, hb,
      if_false, keyMatch_plain hn]

theorem mediated_iff_photos :
    Mediated asciiUpper (fun _ _ => []) objectRoutes ⟨"local".toList,"s3cret".toList⟩
      ⟨"photos".toList,rfl⟩ ↔ "photos".toList ≠ "presign".toList :=
  mediated_iff asciiUpper (fun _ _ => []) objectRoutes objectRoutes_objectRouter
    ⟨"local".toList,"s3cret".toList⟩ ⟨"photos".toList,rfl⟩

/-- An unauthenticated `PUT /presign/x` reaches the object handler. -/
theorem anonymous_put_presign_not_mediated :
    objectRoutes "PUT".toList "/presign/x".toList = some (.putObject,"presign".toList,"x".toList) ∧
    Bucket.validate "presign".toList = .ok () ∧ Key.validate "x".toList = .ok () ∧
    objectAuthMiddleware asciiUpper (fun _ _ => []) (some ⟨"local".toList,"s3cret".toList⟩)
      (anonymousPut "/presign/x".toList) ⟨0,by decide⟩ = .forward ∧
    (∀ key, authorizeRequest asciiUpper (fun _ _ => []) ⟨"local".toList,"s3cret".toList⟩
      (anonymousPut "/presign/x".toList) "presign".toList key ⟨0,by decide⟩ =
        .error .accessDenied) :=
  ⟨rfl,rfl,rfl,rfl,fun _ => rfl⟩

end BackendGauntlet.ObjectStore
