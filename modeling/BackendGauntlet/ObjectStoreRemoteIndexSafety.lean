import BackendGauntlet.ObjectStoreRemoteIndex

/-! The remote index against the local one. -/
namespace BackendGauntlet.ObjectStore

open PyText List Option

def SafeSegment (s : Text) : Prop := ∀ c ∈ s, c.toNat < 128 ∧ Percent.alwaysSafe c = true

theorem safeSegment_bucket (b : Bucket) : SafeSegment b.text := by
  intro c hc
  have h := bucket_chars b c hc
  simp only [isBucketChar, Bool.or_eq_true, Bool.and_eq_true, decide_eq_true_eq, beq_iff_eq] at h
  rcases h with (h | h) | h
  · refine ⟨by omega,?_⟩
    have hlower : c.isLower = true :=
      (Bool.and_eq_true _ _).mpr ⟨decide_eq_true h.1,decide_eq_true h.2⟩
    have halpha : c.isAlpha = true := (Bool.or_eq_true _ _).mpr (Or.inr hlower)
    simp [Percent.alwaysSafe, Char.isAlphanum, halpha]
  · refine ⟨by omega,?_⟩
    simp only [Percent.alwaysSafe, Char.isAlphanum, Char.isDigit, Bool.or_eq_true,
      Bool.and_eq_true, decide_eq_true_eq]
    exact Or.inl (Or.inl (Or.inl (Or.inl (Or.inr h))))
  · subst h
    decide

def plainUrl (segments : List Text) : Text := segments.flatMap (fun segment => '/' :: segment)

theorem indexUrl_append {segments : List Text} (hs : ∀ s ∈ segments, SafeSegment s) (rest : Text) :
    indexUrl segments ++ Percent.quote ['/'] rest =
      Percent.quote ['/'] (plainUrl segments ++ rest) := by
  induction segments with
  | nil => rfl
  | cons s segments ih =>
    rw [forall_mem_cons] at hs
    have hq : Percent.quote [] s = s := by
      have h := Percent.quote_append_safe [] s [] (fun c hc => ⟨(hs.1 c hc).1,Or.inl (hs.1 c hc).2⟩)
      simpa [Percent.quote, Utf8.encode] using h
    have hplain : plainUrl (s :: segments) ++ rest = '/' :: (s ++ (plainUrl segments ++ rest)) := by
      simp [plainUrl]
    have hurl : indexUrl (s :: segments) = '/' :: (s ++ indexUrl segments) := by
      simp [indexUrl, hq]
    rw [hplain, hurl, Percent.quote_cons_safe ['/'] '/' _ (by decide) (by simp),
      Percent.quote_append_safe ['/'] s _
        (fun c hc => ⟨(hs.1 c hc).1,Or.inl (hs.1 c hc).2⟩), ← ih hs.2]
    simp

theorem unquote_indexUrl {segments : List Text} (hs : ∀ s ∈ segments, SafeSegment s) :
    Percent.unquote (indexUrl segments) = plainUrl segments := by
  have h := indexUrl_append hs []
  rw [show Percent.quote ['/'] [] = [] from rfl, append_nil, append_nil] at h
  rw [h, Percent.unquote_quote ['/'] (by decide)]

theorem safeSegment_literal {s : Text}
    (h : s.all (fun c => c.toNat < 128 && Percent.alwaysSafe c)) :
    SafeSegment s := by
  intro c hc
  simpa using List.all_eq_true.mp h c hc

theorem safeSegment_under (b : Bucket) {l : List Text} (h : ∀ s ∈ l, SafeSegment s) :
    ∀ s ∈ "v1".toList :: "buckets".toList :: b.text :: l, SafeSegment s := by
  simp only [forall_mem_cons]
  exact ⟨safeSegment_literal (by decide),safeSegment_literal (by decide),safeSegment_bucket b,h⟩

theorem unquote_keyUrl (b : Bucket) (k : Key) {tail : String} (ht : SafeSegment tail.toList) :
    Percent.unquote (keyUrl b k tail) =
      "/v1/buckets/".toList ++ (b.text ++ '/' :: (tail.toList ++ '/' :: k.text)) := by
  have hs := safeSegment_under b (l := [tail.toList]) (by simpa using ht)
  have h := indexUrl_append hs ('/' :: k.text)
  rw [Percent.quote_cons_safe ['/'] '/' k.text (by decide) (by simp)] at h
  rw [keyUrl, h, Percent.unquote_quote ['/'] (by decide)]
  simp [plainUrl]

theorem afterLiteral_append (literal : String) (s : Text) :
    afterLiteral literal (literal.toList ++ s) = some s := by
  have hstarts := isPrefixOf_iff_prefix.mpr (prefix_append literal.toList s)
  rw [afterLiteral, if_pos hstarts, drop_left]

section
variable (b : Bucket)

theorem routeOf_under (p : Text) :
    routeOf ("/v1/buckets/".toList ++ p) =
      match cut '/' p with
      | none => if p = [] then none else some (.bucket p)
      | some (bucket,rest) => if bucket = [] then none else bucketRoute bucket rest := by
  have h1 : endsRoute "/v1/gc" ("/v1/buckets/".toList ++ p) = false := rfl
  have h2 : endsRoute "/v1/buckets" ("/v1/buckets/".toList ++ p) = false := rfl
  rw [routeOf, h1, h2, if_neg (by decide), if_neg (by decide)]
  cases hcut : cut '/' p with
  | none | some e => simp only [afterLiteral_append, hcut]

theorem routeOf_bucket : routeOf ("/v1/buckets/".toList ++ b.text) = some (.bucket b.text) := by
  rw [routeOf_under, (cut_eq_none_iff '/' b.text).mpr (bucket_plain b).1]
  simp [bucket_ne_nil b]

theorem routeOf_below (rest : Text) :
    routeOf ("/v1/buckets/".toList ++ (b.text ++ '/' :: rest)) = bucketRoute b.text rest := by
  have hcut := (cut_eq_some_iff '/' (b.text ++ '/' :: rest) b.text rest).mpr
    ⟨rfl,(bucket_plain b).1⟩
  rw [routeOf_under, hcut]
  simp [bucket_ne_nil b]

theorem parseBucket_text : parseBucket b.text = .ok b := by
  unfold parseBucket
  split
  · rename_i e h
    exact absurd (h.symm.trans b.valid) (by simp)
  · rfl

theorem parseKey_text (k : Key) : parseKey k.text = .ok k := by
  unfold parseKey
  split
  · rename_i e h
    exact absurd (h.symm.trans k.valid) (by simp)
  · rfl

end

theorem orRespond_some {α : Type} (a : α) (r : IndexResponse) : orRespond (some a) r = .ok a := rfl

theorem parseVersion_putBody (v : NewVersion) (precondition : Option Precondition) :
    parseVersion (putBody v precondition) = .ok v := by
  have h1 := JsonCodec.text.field_of_get "digest" (putBody v precondition) v.digest.text rfl
  have h2 := JsonCodec.text.field_of_get "etag" (putBody v precondition) v.etag rfl
  have h3 := JsonCodec.nat.field_of_get "size" (putBody v precondition) v.size rfl
  have h4 := JsonCodec.text.field_of_get "content_type" (putBody v precondition) v.contentType rfl
  have h5 := blobKindText.fieldOr_of_get "blob_kind" .whole (putBody v precondition) v.blobKind rfl
  simp only [parseVersion, h1, h2, h3, h4, h5, orRespond_some, Digest.new_text, Except.mapError,
    bind, Except.bind]

theorem parseRef_refBody (ref : ObjectRef) : parseRef (some (refBody ref)) = .ok ref := by
  have h : ((some (refBody ref)).bind (fun j => j.get "object_ref".toList)).getD (.obj []) =
      objectRefWire ref := rfl
  rw [parseRef, h, objectRefFromWire_wire, orRespond_some]

def received : IndexCall → IndexCall
  | .put b k v precondition => .put b k v (some (precondition.getD .none))
  | .list b keyPrefix delimiter continuation maxKeys =>
    .list b keyPrefix (truthy delimiter) (truthy continuation) maxKeys
  | call => call

inductive KeyMethod
  | put (version : NewVersion) (precondition : Option Precondition)
  | get
  | resolve (ref : ObjectRef)
  | delete (ref : ObjectRef)

def KeyMethod.call (op : KeyMethod) (b : Bucket) (k : Key) : IndexCall :=
  match op with
  | .put version precondition => .put b k version precondition
  | .get => .get b k
  | .resolve ref => .resolve b k ref
  | .delete ref => .delete b k ref

variable {k : Key} {call : IndexCall} {current : Option ObjectMeta} {v : IndexValue} {e : AppError}
  {ref : ObjectRef} {r : IndexResponse}

section
variable (dt : DatetimeText) (now : ℤ)

theorem routeOf_bucketUrl (b : Bucket) :
    routeOf (Percent.unquote (indexUrl ["v1".toList, "buckets".toList, b.text])) =
      some (.bucket b.text) := by
  rw [unquote_indexUrl (safeSegment_under b (by simp)), ← routeOf_bucket]
  simp [plainUrl]

theorem routeOf_tailUrl (b : Bucket) {tail : String} (ht : SafeSegment tail.toList) :
    routeOf (Percent.unquote (indexUrl ["v1".toList, "buckets".toList, b.text, tail.toList])) =
      bucketRoute b.text tail.toList := by
  rw [unquote_indexUrl (safeSegment_under b (by simpa using ht)), ← routeOf_below]
  simp [plainUrl]

theorem routeOf_metadataUrl (b : Bucket) :
    routeOf (Percent.unquote (indexUrl ["v1".toList, "buckets".toList, b.text,
      "metadata".toList])) = some (.metadata b.text) :=
  routeOf_tailUrl b (safeSegment_literal (by decide))

theorem routeOf_listUrl (b : Bucket) :
    routeOf (Percent.unquote (indexUrl ["v1".toList, "buckets".toList, b.text,
      "list".toList])) = some (.list b.text) :=
  routeOf_tailUrl b (safeSegment_literal (by decide))

theorem routeOf_entriesUrl (b : Bucket) :
    routeOf (Percent.unquote (indexUrl ["v1".toList, "buckets".toList, b.text,
      "entries".toList])) = some (.entries b.text) :=
  routeOf_tailUrl b (safeSegment_literal (by decide))

theorem routeOf_keysUrl (b : Bucket) (k : Key) :
    routeOf (Percent.unquote (keyUrl b k "keys")) =
      (keyMatch k.text).map (IndexRoute.keys b.text) := by
  rw [unquote_keyUrl b k (safeSegment_literal (by decide)), routeOf_below]
  rfl

theorem routeOf_resolveUrl (b : Bucket) (k : Key) :
    routeOf (Percent.unquote (keyUrl b k "resolve")) =
      (keyMatch k.text).map (IndexRoute.resolve b.text) := by
  rw [unquote_keyUrl b k (safeSegment_literal (by decide)), routeOf_below]
  rfl

/-- A call about a key is received as a call about what the route matches of the key. -/
theorem parseRequest_keyMethod (op : KeyMethod) (b : Bucket) (k : Key) :
    parseRequest dt now (indexRequest dt (op.call b k)) =
      match keyMatch k.text with
      | none => .error (unrouted (Percent.unquote (indexRequest dt (op.call b k)).path))
      | some t => (parseKey t).map (fun k' => received (op.call b k')) := by
  cases op with
  | put version precondition =>
    have hguard : (Json.get "precondition".toList (putBody version precondition)).getD (.obj []) =
        preconditionWire precondition := rfl
    simp only [parseRequest, indexRequest, KeyMethod.call, routeOf_keysUrl]
    cases keyMatch k.text with
    | none => rfl
    | some t =>
      simp only [map_some, orRespond_some, parseVersion_putBody, parseBucket_text, hguard,
        preconditionFromWire_wire, bind, Except.bind, received]
      cases parseKey t <;> rfl
  | get =>
    simp only [parseRequest, indexRequest, KeyMethod.call, routeOf_keysUrl]
    cases keyMatch k.text with
    | none => rfl
    | some t =>
      simp only [map_some, parseBucket_text, bind, Except.bind, received]
      cases parseKey t <;> rfl
  | resolve ref =>
    simp only [parseRequest, indexRequest, KeyMethod.call, routeOf_resolveUrl]
    cases keyMatch k.text with
    | none => rfl
    | some t =>
      simp only [map_some, parseBucket_text, parseRef_refBody, bind, Except.bind, received]
      cases parseKey t <;> rfl
  | delete ref =>
    simp only [parseRequest, indexRequest, KeyMethod.call, routeOf_keysUrl]
    cases keyMatch k.text with
    | none => rfl
    | some t =>
      simp only [map_some, parseBucket_text, parseRef_refBody, bind, Except.bind, received]
      cases parseKey t <;> rfl

theorem parseRequest_plainKey (op : KeyMethod) (b : Bucket) (hk : '\n' ∉ k.text) :
    parseRequest dt now (indexRequest dt (op.call b k)) = .ok (received (op.call b k)) := by
  rw [parseRequest_keyMethod, keyMatch_plain hk]
  simp only [parseKey_text, Except.map]

/-- A transmitted call is understood as it was meant. -/
theorem parseRequest_indexRequest (h : transmitted call = true) :
    parseRequest dt now (indexRequest dt call) = .ok (received call) := by
  cases call with
  | createBucket b | ensureBucket b =>
    simp only [parseRequest, indexRequest, routeOf_bucketUrl, parseBucket_text, Except.map,
      received]
  | buckets => rfl
  | put b k v precondition =>
    exact parseRequest_plainKey dt now (.put v precondition) b (of_decide_eq_true h)
  | get b k => exact parseRequest_plainKey dt now .get b (of_decide_eq_true h)
  | resolve b k ref => exact parseRequest_plainKey dt now (.resolve ref) b (of_decide_eq_true h)
  | delete b k ref => exact parseRequest_plainKey dt now (.delete ref) b (of_decide_eq_true h)
  | list b keyPrefix delimiter continuation maxKeys =>
    have hn : ¬ maxKeys < 0 := Int.not_lt.mpr (of_decide_eq_true h)
    simp only [parseRequest, indexRequest, routeOf_listUrl, getD_some, hn, if_false,
      parseBucket_text, Except.map, received]
  | indexEntries b =>
    simp only [parseRequest, indexRequest, routeOf_entriesUrl, parseBucket_text, Except.map,
      received]
  | gc => rfl
  | loadBucketMetadata b =>
    simp only [parseRequest, indexRequest, routeOf_metadataUrl, parseBucket_text, Except.map,
      received]
  | storeBucketMetadata b m =>
    have hm : (metadataCodec dt now).decode (metadataJson dt m) = some m :=
      (metadataCodec dt now).decode_encode m
    simp only [parseRequest, indexRequest, routeOf_metadataUrl, bind_some, hm, orRespond_some,
      parseBucket_text, bind, Except.bind, received]

end

section
variable (rows : Dict Key ObjectMeta) (keyPrefix : Text)

@[simp] theorem truthy_none : truthy none = none := rfl

@[simp] theorem truthy_nil : truthy (some []) = none := rfl

@[simp] theorem truthy_cons (c : Char) (s : Text) : truthy (some (c :: s)) = some (c :: s) := rfl

theorem rollup_truthy (delimiter : Option Text) (key : Text) :
    rollup keyPrefix (truthy delimiter) key = rollup keyPrefix delimiter key := by
  rcases delimiter with _ | _ | ⟨c,d⟩
  · rfl
  · simp [rollup]
  · rfl

theorem listItems_truthy (delimiter : Option Text) :
    listItems rows keyPrefix (truthy delimiter) = listItems rows keyPrefix delimiter := by
  simp only [listItems, rollup_truthy]

theorem rollup_ne_nil {delimiter : Option Text} {key q : Text}
    (h : rollup keyPrefix delimiter key = some q) : q ≠ [] := by
  unfold rollup at h
  cases delimiter with
  | none => cases h
  | some d =>
    simp only at h
    split_ifs at h with hd
    obtain ⟨p,hp,rfl⟩ := map_eq_some_iff.mp h
    have hlen := (findText_take_append d (key.drop keyPrefix.length) [] p hp).2
    have hpos : 0 < d.length := length_pos_iff.mpr hd
    intro hq
    have htake := (append_eq_nil_iff.mp hq).2
    have hzero := congrArg length htake
    rw [length_take, length_nil] at hzero
    omega

theorem name_ne_nil {delimiter : Option Text} {x : ListItem}
    (hx : x ∈ listItems rows keyPrefix delimiter) : x.name ≠ [] := by
  cases x with
  | object key row => exact key_ne_nil key
  | folder q =>
    obtain ⟨key,_,_,_,hq⟩ := (mem_listItems_folder rows q).mp hx
    exact rollup_ne_nil keyPrefix hq

theorem listPage_truthy (delimiter continuation : Option Text) (maxKeys : ℤ) :
    listPage rows keyPrefix (truthy delimiter) (truthy continuation) maxKeys =
      listPage rows keyPrefix delimiter continuation maxKeys := by
  rcases continuation with _ | _ | ⟨c,token⟩
  · simp [listPage, listItems_truthy]
  · have hall : (listItems rows keyPrefix delimiter).filter (fun x => ltText [] x.name) =
        listItems rows keyPrefix delimiter := by
      apply filter_eq_self.mpr
      intro x hx
      obtain ⟨c,s,hname⟩ := exists_cons_of_ne_nil (name_ne_nil rows keyPrefix hx)
      rw [hname]
      rfl
    simp [listPage, listItems_truthy, hall]
  · simp [listPage, listItems_truthy]

end

section
variable (fromBytes : Bytes → Option Manifest) (gcGrace now : ℤ)

theorem localCall_received (s : IndexTree) (call : IndexCall) :
    localCall fromBytes gcGrace now s (received call) = localCall fromBytes gcGrace now s call := by
  cases call with
  | list b keyPrefix delimiter continuation maxKeys =>
    simp only [received, localCall, listPage_truthy]
  | _ => rfl

end

theorem indexPut_error {v : NewVersion} {guard : Precondition}
    {now : ℤ} (h : indexPut current v guard now = .error e) :
    e = .preconditionFailed := by
  unfold indexPut at h
  split at h
  · rename_i hc
    rw [← Except.error.inj h]
    unfold Precondition.check at hc
    cases guard with
    | none => cases hc
    | _ =>
      simp only at hc
      split_ifs at hc
      exact (Except.error.inj hc).symm
  · cases h

theorem resolveLive_error {m : ObjectMeta} (h : m.resolveLive ref = .error e) : e = .noSuchKey := by
  unfold ObjectMeta.resolveLive at h
  split at h
  · exact (Except.error.inj h).symm
  · split at h
    · exact (Except.error.inj h).symm
    · cases h

theorem indexResolve_error (h : indexResolve current ref = .error e) : e = .noSuchKey := by
  cases current with
  | none => exact (Except.error.inj h).symm
  | some m => exact resolveLive_error h

theorem indexDelete_error (h : indexDelete current ref = .error e) : e = .noSuchKey := by
  unfold indexDelete at h
  split at h
  · cases h
  · split at h
    · exact (Except.error.inj h).symm
    · split at h
      · exact (Except.error.inj h).symm
      · cases h

section
variable (fromBytes : Bytes → Option Manifest)

theorem markVersions_error (s : StoreState) (es : List VersionEntry) (referenced : List Digest)
    (err : OpError) (h : markVersions fromBytes s referenced es = .error err) (a : AppError) :
    err ≠ .app a := by
  induction es generalizing referenced with
  | nil => cases h
  | cons e es ih =>
    unfold markVersions at h
    split at h
    · exact ih _ h
    · split at h
      · exact ih _ h
      · split at h
        · exact ih _ h
        · exact ih _ h
        · rename_i err' hnot _
          rw [← Except.error.inj h]
          exact fun ha => hnot a ha

theorem markAll_error {s : StoreState} {ms : List ObjectMeta} (referenced : List Digest)
    (err : OpError) (h : markAll fromBytes s referenced ms = .error err) (a : AppError) :
    err ≠ .app a := by
  induction ms generalizing referenced with
  | nil => cases h
  | cons m ms ih =>
    unfold markAll at h
    split at h
    · rename_i err' hm
      rw [← Except.error.inj h]
      exact markVersions_error fromBytes s m.versions referenced err' hm a
    · exact ih _ h

theorem gc_error {s : StoreState} {buckets : List BucketFiles} {now grace : ℤ} {err : OpError}
    (h : (gc fromBytes s buckets now grace).1 = .error err) (a : AppError) : err ≠ .app a := by
  unfold gc at h
  split at h
  · rename_i err' hc
    rw [← Except.error.inj h]
    unfold collectReferencedDigests at hc
    split at hc
    · rename_i err'' hs
      rw [← Except.error.inj hc]
      unfold scanCommitted at hs
      split_ifs at hs
      rw [← Except.error.inj hs]
      simp
    · exact markAll_error fromBytes [] err' hc a
  · cases h

end

theorem errorResponse_status (e : AppError) : 400 ≤ (errorResponse e).status := by
  cases e <;> exact Nat.le_of_ble_eq_true rfl

inductive Returns : IndexCall → IndexValue → Prop
  | createBucket (b) : Returns (.createBucket b) .done
  | buckets (names) : Returns .buckets (.names names)
  | ensureBucket (b) : Returns (.ensureBucket b) .done
  | put (b k v precondition r) : Returns (.put b k v precondition) (.row (some r))
  | get (b k r) : Returns (.get b k) (.row r)
  | resolve (b k ref r) : Returns (.resolve b k ref) (.resolved r)
  | delete (b k ref) : Returns (.delete b k ref) .done
  | list (b keyPrefix delimiter continuation maxKeys page) :
    Returns (.list b keyPrefix delimiter continuation maxKeys) (.listing page)
  | indexEntries (b rows) : Returns (.indexEntries b) (.entries rows)
  | gc (n) : Returns .gc (.reclaimed n)
  | loadBucketMetadata (b m) : Returns (.loadBucketMetadata b) (.metadata m)
  | storeBucketMetadata (b m) : Returns (.storeBucketMetadata b m) .done

theorem resultOf_success (dt : DatetimeText) (now : ℤ)
    (h : Returns call v) : resultOf dt now call (success dt (received call) v) = .ok v := by
  have hread {α : Type} (c : JsonCodec α) (f : α → IndexValue) (a : α) :
      readAnswer ((c.decode (c.encode a)).map f) = .ok (f a) := by
    rw [c.decode_encode]
    rfl
  cases h with
  | createBucket b => rfl
  | buckets names => exact hread JsonCodec.text.list IndexValue.names names
  | ensureBucket b => rfl
  | put b k v precondition r => exact hread (rowCodec dt) (fun r => .row (some r)) r
  | get b k r => exact hread (maybeRowCodec dt) IndexValue.row r
  | resolve b k ref r => exact hread (resolvedCodec dt) IndexValue.resolved r
  | delete b k ref => rfl
  | list b keyPrefix delimiter continuation maxKeys page =>
    exact hread (pageCodec dt) IndexValue.listing page
  | indexEntries b rows => exact hread (rowCodec dt).list IndexValue.entries rows
  | gc n => rfl
  | loadBucketMetadata b m => exact hread (metadataCodec dt now) IndexValue.metadata m
  | storeBucketMetadata b m => rfl

/-- A value of its form, an error the wire can carry, or an exception of Python's own. -/
inductive Settles (call : IndexCall) : Except OpError IndexValue → Prop
  | value {v : IndexValue} (h : Returns call v) : Settles call (.ok v)
  | raises {e : AppError} (h : e.listed = true) : Settles call (.error (.app e))
  | foreign {e : OpError} (h : ∀ a, e ≠ .app a) : Settles call (.error e)

theorem sameOutcome_of_settles (dt : DatetimeText) (now : ℤ) {o : Except OpError IndexValue}
    (h : Settles call o) : SameOutcome o (resultOf dt now call (respond dt (received call) o)) := by
  cases h with
  | value hr =>
    simp only [respond, resultOf_success dt now hr]
    exact SameOutcome.value _
  | @raises e he =>
    have hresult : requestResult (errorResponse e) = .error (.app e.exception) := by
      have hstatus := errorResponse_status e
      rw [requestResult, if_neg (by omega), errorFromResponse_errorResponse he]
    simp only [resultOf, respond, hresult]
    exact SameOutcome.raises e
  | @foreign e hf =>
    have hresponse : respond dt (received call) (.error e) = internalError := by
      cases e with
      | app a => exact absurd rfl (hf a)
      | osError => rfl
      | validationError => rfl
      | clientDisconnect => rfl
    rw [hresponse]
    exact SameOutcome.foreign e _ hf

section
variable (fromBytes : Bytes → Option Manifest) (gcGrace now : ℤ)

theorem localCall_settles (s : IndexTree) (call : IndexCall) :
    Settles call (localCall fromBytes gcGrace now s call).1 := by
  cases call with
  | createBucket b =>
    simp only [localCall]
    split
    · exact .raises rfl
    · exact .value (.createBucket _)
  | buckets => exact .value (.buckets _)
  | ensureBucket b =>
    simp only [localCall]
    split
    · exact .value (.ensureBucket _)
    · exact .raises rfl
  | put b k v precondition =>
    simp only [localCall]
    split
    · rename_i e he
      rw [indexPut_error he]
      exact .raises rfl
    · exact .value (.put _ _ _ _ _)
  | get b k => exact .value (.get _ _ _)
  | resolve b k ref =>
    simp only [localCall]
    split
    · rename_i e he
      rw [indexResolve_error he]
      exact .raises rfl
    · exact .value (.resolve _ _ _ _)
  | delete b k ref =>
    simp only [localCall]
    split
    · rename_i e he
      rw [indexDelete_error he]
      exact .raises rfl
    · exact .value (.delete _ _ _)
    · exact .value (.delete _ _ _)
  | list b keyPrefix delimiter continuation maxKeys =>
    simp only [localCall]
    split
    · exact .raises rfl
    · exact .value (.list _ _ _ _ _ _)
  | indexEntries b => exact .value (.indexEntries _ _)
  | gc =>
    simp only [localCall]
    split
    · rename_i e store hgc
      -- the collector swallows what the application raises
      exact .foreign (gc_error fromBytes (by rw [hgc]))
    · exact .value (.gc _)
  | loadBucketMetadata b =>
    simp only [localCall]
    split
    · exact .raises rfl
    · split
      · exact .value (.loadBucketMetadata _ _)
      · split
        · exact .value (.loadBucketMetadata _ _)
        · exact .value (.loadBucketMetadata _ _)
  | storeBucketMetadata b m =>
    simp only [localCall]
    split
    · exact .raises rfl
    · exact .value (.storeBucketMetadata _ _)

end

section
variable (dt : DatetimeText) (fromBytes : Bytes → Option Manifest) (gcGrace now : ℤ)

theorem sameOutcome_localCall (s : IndexTree) (call : IndexCall) :
    SameOutcome (localCall fromBytes gcGrace now s call).1
      (resultOf dt now call
        (respond dt (received call) (localCall fromBytes gcGrace now s call).1)) :=
  sameOutcome_of_settles dt now (localCall_settles fromBytes gcGrace now s call)

def RemoteAgrees (s : IndexTree) (call : IndexCall) : Prop :=
  SameOutcome (localCall fromBytes gcGrace now s call).1
    (remoteCall dt fromBytes gcGrace now s call).1 ∧
  (remoteCall dt fromBytes gcGrace now s call).2 = (localCall fromBytes gcGrace now s call).2

theorem agrees_of_transmitted (s : IndexTree) (h : transmitted call = true) :
    RemoteAgrees dt fromBytes gcGrace now s call := by
  have hr : remoteCall dt fromBytes gcGrace now s call =
      (resultOf dt now call
        (respond dt (received call) (localCall fromBytes gcGrace now s call).1),
        (localCall fromBytes gcGrace now s call).2) := by
    simp only [remoteCall, parseRequest_indexRequest dt now h, localCall_received]
  rw [RemoteAgrees, hr]
  exact ⟨sameOutcome_localCall dt fromBytes gcGrace now s call,rfl⟩

end

/-! Where a call is not transmitted, some state shows it. -/

def oneRow (b : Bucket) (k : Key) (m : ObjectMeta) : IndexTree :=
  ⟨Dict.empty.set b ⟨none,Dict.empty.set k m⟩, ⟨Dict.empty,Dict.empty,Dict.empty,[],Dict.empty⟩⟩

def oneVersion (id : VersionId) (etag : Text) : ObjectMeta :=
  ⟨id,[⟨id,0,.live ⟨abcDigest,etag,3,[],.whole⟩⟩],id+1,List.nodup_singleton _⟩

theorem rowAt_oneRow (b : Bucket) (k k' : Key) (m : ObjectMeta) :
    (oneRow b k m).rowAt b k' = if k' = k then some m else none := by
  simp [IndexTree.rowAt, oneRow, Dict.get_set]

theorem resolveLive_oneVersion (ref : ObjectRef) (etag : Text) :
    (oneVersion (ref.getD 1) etag).resolveLive ref =
      .ok ⟨ref.getD 1,⟨abcDigest,etag,3,[],.whole⟩,0⟩ := by
  have hid : ref.getD (ref.getD 1) = ref.getD 1 := by cases ref <;> rfl
  simp [ObjectMeta.resolveLive, ObjectMeta.resolve, oneVersion, hid, VersionEntry.asLive]

theorem indexDelete_oneVersion (ref : ObjectRef) (etag : Text) :
    indexDelete (some (oneVersion (ref.getD 1) etag)) ref = .ok none := by
  cases ref with
  | none => rfl
  | some id => simp [indexDelete, ObjectMeta.removeVersion, oneVersion]

theorem rowAt_dropRow_oneRow (b : Bucket) (k k' : Key) (m : ObjectMeta) :
    ((oneRow b k m).dropRow b k').rowAt b k = if k = k' then none else some m := by
  simp only [IndexTree.rowAt, IndexTree.dropRow, oneRow, Dict.get_set_self, bind_some,
    Dict.get_erase]

def KeyMethod.telling (op : KeyMethod) (b : Bucket) (k : Key) : IndexTree :=
  match op with
  | .put _ precondition =>
    match precondition.getD .none with
    | .ifMatch etag => oneRow b k (oneVersion 1 etag)
    | _ => ⟨Dict.empty,⟨Dict.empty,Dict.empty,Dict.empty,[],Dict.empty⟩⟩
  | .get => oneRow b k (oneVersion 1 [])
  | .resolve ref => oneRow b k (oneVersion (ref.getD 1) [])
  | .delete ref => oneRow b k (oneVersion (ref.getD 1) [])

theorem check_telling (b : Bucket) (k : Key) (v : NewVersion) (precondition : Option Precondition) :
    (precondition.getD .none).check
      (((KeyMethod.put v precondition).telling b k).rowAt b k) = .ok () := by
  simp only [KeyMethod.telling]
  cases precondition.getD .none with
  | none => rfl
  | ifNoneMatchStar => rfl
  | ifMatch etag =>
    have hlive : (oneVersion 1 etag).resolveLive none =
        .ok ⟨1,⟨abcDigest,etag,3,[],.whole⟩,0⟩ := resolveLive_oneVersion none etag
    simp [rowAt_oneRow, Precondition.check, ObjectMeta.latestLive, hlive, Except.toOption]

section
variable (fromBytes : Bytes → Option Manifest) (gcGrace now : ℤ)

theorem telling_outcome (op : KeyMethod) (b : Bucket) (k : Key) :
    ∃ v, (localCall fromBytes gcGrace now (op.telling b k) (op.call b k)).1 = .ok v ∧
      ∀ k', localCall fromBytes gcGrace now (op.telling b k) (op.call b k') =
        (.ok v,(localCall fromBytes gcGrace now (op.telling b k) (op.call b k)).2) → k' = k := by
  cases op with
  | put version precondition =>
    have hput := (indexPut_eq_ok _ version _ now _).mpr ⟨check_telling b k version precondition,rfl⟩
    refine ⟨.row (some ⟨b,k,putRow (((KeyMethod.put version precondition).telling b k).rowAt b k)
      version now⟩),by simp only [localCall, KeyMethod.call, hput],?_⟩
    intro k' hk
    have hv := congrArg Prod.fst hk
    simp only [localCall, KeyMethod.call] at hv
    split at hv
    · cases hv
    · injection hv with hv
      injection hv with hv
      injection hv with hv
      injection hv
  | get =>
    refine ⟨.row (some ⟨b,k,oneVersion 1 []⟩),?_,fun k' hk => ?_⟩
    · simp [localCall, KeyMethod.call, KeyMethod.telling, rowAt_oneRow]
    · have hv := congrArg Prod.fst hk
      simp only [localCall, KeyMethod.call, KeyMethod.telling, rowAt_oneRow] at hv
      by_contra hne
      rw [if_neg hne] at hv
      cases hv
  | resolve ref =>
    have hres := resolveLive_oneVersion ref []
    refine ⟨.resolved ⟨b,k,⟨ref.getD 1,⟨abcDigest,[],3,[],.whole⟩,0⟩⟩,?_,?_⟩
    · simp [localCall, KeyMethod.call, KeyMethod.telling, rowAt_oneRow, indexResolve, hres]
    · intro k' hk
      have hv := congrArg Prod.fst hk
      simp only [localCall, KeyMethod.call, KeyMethod.telling, rowAt_oneRow] at hv
      by_contra hne
      rw [if_neg hne] at hv
      cases hv
  | delete ref =>
    have hdel := indexDelete_oneVersion ref []
    have hlocal : localCall fromBytes gcGrace now ((KeyMethod.delete ref).telling b k)
        (.delete b k ref) = (.ok .done,
          (oneRow b k (oneVersion (ref.getD 1) [])).dropRow b k) := by
      simp [localCall, KeyMethod.telling, rowAt_oneRow, hdel]
    refine ⟨.done,by rw [KeyMethod.call, hlocal],?_⟩
    intro k' hk
    rw [KeyMethod.call, KeyMethod.call, hlocal] at hk
    by_contra hne
    simp only [localCall, KeyMethod.telling, rowAt_oneRow, if_neg hne] at hk
    cases ref with
    | some id => exact absurd (congrArg Prod.fst hk) (by simp [indexDelete])
    | none =>
      -- both succeed, but the row of `k` is gone after one of them only
      have hrow := congrArg (fun r => IndexTree.rowAt r.2 b k) hk
      simp only [indexDelete, rowAt_dropRow_oneRow, if_true, if_neg (Ne.symm hne)] at hrow
      cases hrow

end

section
variable (dt : DatetimeText) (fromBytes : Bytes → Option Manifest) (gcGrace now : ℤ)

theorem unrouted_status {path : Text} : 300 ≤ (unrouted path).status := by
  simp only [unrouted]
  split_ifs <;> decide

theorem resultOf_error (call : IndexCall) (h : 300 ≤ r.status) :
    ∃ e, resultOf dt now call r = .error e := by
  have hr : requestResult r = .error (.app (errorFromResponse r)) := by
    rw [requestResult, if_neg (by omega)]
  refine ⟨.app (errorFromResponse r),?_⟩
  simp only [resultOf, hr]

theorem SameOutcome.of_ok {r : Except ClientError IndexValue} (h : SameOutcome (.ok v) r) :
    r = .ok v := by
  cases h
  rfl

theorem SameOutcome.to_ok {o : Except OpError IndexValue}
    (h : SameOutcome o (.ok v)) : o = .ok v := by
  cases h
  rfl

variable {fromBytes gcGrace}

theorem not_agrees_of_refused {s : IndexTree}
    (hv : (localCall fromBytes gcGrace now s call).1 = .ok v)
    (hr : parseRequest dt now (indexRequest dt call) = .error r) (hs : 300 ≤ r.status) :
    ¬ RemoteAgrees dt fromBytes gcGrace now s call := by
  intro h
  obtain ⟨e,he⟩ := resultOf_error dt now call hs
  have hremote : (remoteCall dt fromBytes gcGrace now s call).1 = .error e := by
    simp only [remoteCall, hr, he]
  have hsame := h.1
  rw [hv, hremote] at hsame
  exact absurd (SameOutcome.of_ok hsame) (by simp)

theorem parseKey_error_status {t : Text} (h : parseKey t = .error r) :
    300 ≤ r.status := by
  unfold parseKey at h
  split at h
  · rename_i e _
    rw [← Except.error.inj h]
    exact Nat.le_trans (by decide) (errorResponse_status e)
  · cases h

theorem parseKey_eq_ok {t : Text} (h : parseKey t = .ok k) : k.text = t := by
  unfold parseKey at h
  split at h
  · cases h
  · rw [← Except.ok.inj h]

/-- A key with a line feed reaches the service as another key, or not at all. -/
theorem not_agrees_keyMethod (op : KeyMethod) (b : Bucket) (hk : '\n' ∈ k.text) :
    ¬ RemoteAgrees dt fromBytes gcGrace now (op.telling b k) (op.call b k) := by
  obtain ⟨v,hv,htell⟩ := telling_outcome fromBytes gcGrace now op b k
  have hparse := parseRequest_keyMethod dt now op b k
  cases hm : keyMatch k.text with
  | none =>
    rw [hm] at hparse
    exact not_agrees_of_refused dt now hv hparse (unrouted_status)
  | some t =>
    rw [hm] at hparse
    simp only at hparse
    cases hp : parseKey t with
    | error r =>
      rw [hp] at hparse
      exact not_agrees_of_refused dt now hv hparse (parseKey_error_status hp)
    | ok k' =>
      rw [hp] at hparse
      simp only [Except.map] at hparse
      intro h
      -- the service worked on `k'`; had the client seen `v`, then `k'` would be `k`
      have hread : resultOf dt now (op.call b k) = resultOf dt now (op.call b k') := by
        cases op <;> rfl
      have hremote : remoteCall dt fromBytes gcGrace now (op.telling b k) (op.call b k) =
          (resultOf dt now (op.call b k') (respond dt (received (op.call b k'))
            (localCall fromBytes gcGrace now (op.telling b k) (op.call b k')).1),
            (localCall fromBytes gcGrace now (op.telling b k) (op.call b k')).2) := by
        simp only [remoteCall, hparse, localCall_received, hread]
      have hother := sameOutcome_localCall dt fromBytes gcGrace now (op.telling b k) (op.call b k')
      rw [RemoteAgrees, hremote, hv] at h
      have hresult := SameOutcome.of_ok h.1
      simp only at hresult
      rw [hresult] at hother
      have hsame : k' = k := htell k' (Prod.ext (SameOutcome.to_ok hother) h.2)
      have ht := parseKey_eq_ok hp
      rw [hsame] at ht
      exact keyMatch_ne_self hk (by rw [hm, ht])

theorem not_agrees_list (b : Bucket) (keyPrefix : Text) (delimiter continuation : Option Text)
    {maxKeys : ℤ} (hn : maxKeys < 0) :
    ¬ RemoteAgrees dt fromBytes gcGrace now (oneRow b keyA (oneVersion 1 []))
      (.list b keyPrefix delimiter continuation maxKeys) := by
  have hparse : parseRequest dt now
      (indexRequest dt (.list b keyPrefix delimiter continuation maxKeys)) =
        .error (detail 422) := by
    simp only [parseRequest, indexRequest, routeOf_listUrl, getD_some]
    exact if_pos hn
  have hlocal : ∃ v, (localCall fromBytes gcGrace now (oneRow b keyA (oneVersion 1 []))
      (.list b keyPrefix delimiter continuation maxKeys)).1 = .ok v := by
    simp only [localCall, oneRow, Dict.get_set_self]
    exact ⟨_,rfl⟩
  obtain ⟨v,hv⟩ := hlocal
  exact not_agrees_of_refused dt now hv hparse (by decide)

/-- What the wire does not carry shows on some tree. -/
theorem exists_not_agrees (h : transmitted call = false) :
    ∃ s, ¬ RemoteAgrees dt fromBytes gcGrace now s call := by
  cases call with
  | put b k v precondition =>
    exact ⟨_,not_agrees_keyMethod dt now (.put v precondition) b
      (not_not.mp (of_decide_eq_false h))⟩
  | get b k =>
    exact ⟨_,not_agrees_keyMethod dt now .get b (not_not.mp (of_decide_eq_false h))⟩
  | resolve b k ref =>
    exact ⟨_,not_agrees_keyMethod dt now (.resolve ref) b (not_not.mp (of_decide_eq_false h))⟩
  | delete b k ref =>
    exact ⟨_,not_agrees_keyMethod dt now (.delete ref) b (not_not.mp (of_decide_eq_false h))⟩
  | list b keyPrefix delimiter continuation maxKeys =>
    exact ⟨_,not_agrees_list dt now b keyPrefix delimiter continuation
      (Int.not_le.mp (of_decide_eq_false h))⟩
  | _ => cases h

end

def runIndex {ε : Type} (step : ℤ → IndexTree → IndexCall → ε × IndexTree) (s : IndexTree) :
    List (ℤ × IndexCall) → List ε × IndexTree
  | [] => ([],s)
  | (now,call) :: calls =>
    let r := step now s call
    let rest := runIndex step r.2 calls
    (r.1 :: rest.1,rest.2)

section
variable (dt : DatetimeText) (fromBytes : Bytes → Option Manifest) (gcGrace : ℤ)

/-- Over a run the two indexes give the same outcomes. -/
theorem runIndex_agrees (s : IndexTree) {calls : List (ℤ × IndexCall)}
    (h : ∀ c ∈ calls, transmitted c.2 = true) :
    List.Forall₂ SameOutcome (runIndex (localCall fromBytes gcGrace) s calls).1
        (runIndex (remoteCall dt fromBytes gcGrace) s calls).1 ∧
      (runIndex (remoteCall dt fromBytes gcGrace) s calls).2 =
        (runIndex (localCall fromBytes gcGrace) s calls).2 := by
  induction calls generalizing s with
  | nil => exact ⟨List.Forall₂.nil,rfl⟩
  | cons c calls ih =>
    obtain ⟨now,call⟩ := c
    rw [forall_mem_cons] at h
    obtain ⟨hout,hstate⟩ := agrees_of_transmitted dt fromBytes gcGrace now s h.1
    have hrest := ih (localCall fromBytes gcGrace now s call).2 h.2
    simp only [runIndex, hstate]
    exact ⟨List.Forall₂.cons hout hrest.1,hrest.2⟩

/-- Outcome and effect agree, for calls and sequences of them, exactly when the call is transmitted.
-/
theorem remote_index_refines_iff :
    (∀ call, (∀ now s, RemoteAgrees dt fromBytes gcGrace now s call) ↔ transmitted call = true) ∧
    ∀ s calls, (∀ c ∈ calls, transmitted c.2 = true) →
      List.Forall₂ SameOutcome (runIndex (localCall fromBytes gcGrace) s calls).1
          (runIndex (remoteCall dt fromBytes gcGrace) s calls).1 ∧
        (runIndex (remoteCall dt fromBytes gcGrace) s calls).2 =
          (runIndex (localCall fromBytes gcGrace) s calls).2 := by
  refine ⟨?_,?_⟩
  · intro call
    constructor
    · intro hall
      by_contra hn
      obtain ⟨s,hs⟩ := exists_not_agrees dt 0 (Bool.eq_false_iff.mpr hn)
      exact hs (hall 0 s)
    · intro h now s
      exact agrees_of_transmitted dt fromBytes gcGrace now s h
  · intro s calls h
    exact runIndex_agrees dt fromBytes gcGrace s h

end

def strokes (t : ℤ) : Text := (if t < 0 then '-' else '+') :: List.replicate t.natAbs '|'

def readStrokes : Text → Option ℤ
  | '-' :: s => some (-(s.length : ℤ))
  | '+' :: s => some s.length
  | _ => none

theorem readStrokes_strokes (t : ℤ) : readStrokes (strokes t) = some t := by
  unfold strokes
  split_ifs with h
  · simp only [readStrokes, length_replicate, some.injEq]
    omega
  · simp only [readStrokes, length_replicate, some.injEq]
    omega

def strokeTimes : DatetimeText :=
  ⟨strokes,readStrokes,strokes,readStrokes,readStrokes_strokes,readStrokes_strokes⟩

def keyLineFeed : Key := ⟨"a\n".toList,rfl⟩

def photosTree : IndexTree :=
  ⟨Dict.empty.set photosBucket ⟨none,Dict.empty⟩, ⟨Dict.empty,Dict.empty,Dict.empty,[],Dict.empty⟩⟩

def photosCalls : List (ℤ × IndexCall) :=
  [(0,.put photosBucket keyA abcVersion none), (1,.get photosBucket keyA),
    (2,.list photosBucket [] none none 10)]

theorem remote_index_refines_photos :
    List.Forall₂ SameOutcome (runIndex (localCall (fun _ => none) 0) photosTree photosCalls).1
        (runIndex (remoteCall strokeTimes (fun _ => none) 0) photosTree photosCalls).1 ∧
      (runIndex (remoteCall strokeTimes (fun _ => none) 0) photosTree photosCalls).2 =
        (runIndex (localCall (fun _ => none) 0) photosTree photosCalls).2 :=
  (remote_index_refines_iff strokeTimes (fun _ => none) 0).2 photosTree photosCalls
    (by decide +kernel)

/-- A key loses its final line feed; a negative page size is refused over the wire alone. -/
theorem remote_index_drops_line_feed :
    (localCall (fun _ => none) 0 0 photosTree
      (.put photosBucket keyLineFeed abcVersion none)).2.rowAt photosBucket keyA = none ∧
    (remoteCall strokeTimes (fun _ => none) 0 0 photosTree
      (.put photosBucket keyLineFeed abcVersion none)).2.rowAt photosBucket keyA =
        some (ObjectMeta.newLive abcVersion 0) ∧
    (localCall (fun _ => none) 0 0 photosTree (.list photosBucket [] none none (-1))).1.isOk ∧
    (remoteCall strokeTimes (fun _ => none) 0 0 photosTree
      (.list photosBucket [] none none (-1))).1.isOk = false := by
  decide +kernel

end BackendGauntlet.ObjectStore
