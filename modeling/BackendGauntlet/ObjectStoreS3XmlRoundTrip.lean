import BackendGauntlet.ObjectStoreS3Xml

/-! What `parse_list_bucket` returns for an emitted listing. -/
namespace BackendGauntlet.ObjectStore

open PyText Xml List Option

section
variable {tag text name other t : Text} {rest children : List Element}

theorem findElementText_leaf (h : plainName name = true) :
    findElementText (.mk tag text (s3Leaf name t :: rest)) name = some (strip t) := by
  have hname : localName (s3Leaf name t).tag = name := localName_s3Tag h
  simp only [findElementText, Element.children, find?_cons, hname, decide_true, map_some]
  rfl

theorem findElementText_skip (h : plainName other = true) (hne : other ≠ name) :
    findElementText (.mk tag text (.mk (s3Tag other) t children :: rest)) name =
      findElementText (.mk tag text rest) name := by
  have hother : localName (Element.mk (s3Tag other) t children).tag = other :=
    localName_s3Tag h
  simp [findElementText, Element.children, hother, hne]

theorem findElementText_skipLeaf (h : plainName other = true) (hne : other ≠ name) :
    findElementText (.mk tag text (s3Leaf other t :: rest)) name =
      findElementText (.mk tag text rest) name :=
  findElementText_skip h hne

theorem findElementText_leafIf {value : Option Text}
    (h : plainName other = true) (hne : other ≠ name) :
    findElementText (.mk tag text (leafIf other value ++ rest)) name =
      findElementText (.mk tag text rest) name := by
  cases value with
  | none => rfl
  | some t =>
    unfold leafIf
    by_cases ht : t = []
    · simp [ht]
    · simp only [ht, if_false, cons_append, nil_append]
      exact findElementText_skip h hne

theorem findElementText_rows (tag text name : Text) (contents : List ListContent)
    (folders : List Text) (hrow : "Contents".toList ≠ name)
    (hfolder : "CommonPrefixes".toList ≠ name) :
    findElementText (.mk tag text (contents.map contentElement ++ folders.map folderElement))
      name = none := by
  induction contents with
  | nil =>
    induction folders with
    | nil => rfl
    | cons folder folders ih =>
      exact (findElementText_skip (by decide) hfolder).trans ih
  | cons content contents ih =>
    exact (findElementText_skip (by decide) hrow).trans ih

end

theorem strip_numeric {t : Text} (ht : t.all isNumeric = true) : strip t = t := by
  have hspace (c : Char) (hc : c ∈ t) : isSpaceChar c = false := by
    have h := List.all_eq_true.mp ht c hc
    rcases Bool.or_eq_true _ _ ▸ h with h | h
    · obtain ⟨hlo,hhi⟩ := isDigit_toNat c h
      simp only [isSpaceChar, isBlank, wideSpaces, Bool.or_eq_false_iff, Bool.and_eq_false_iff,
        decide_eq_false_iff_not, beq_eq_false_iff_ne, mem_cons, not_mem_nil, or_false]
      omega
    · exact Bool.not_eq_true' _ ▸ List.all_eq_true.mp
        (by decide : "-T:.Z".toList.all (fun c => !isSpaceChar c) = true) c (of_decide_eq_true h)
  have hkeep (s : Text) (hs : ∀ c ∈ s, isSpaceChar c = false) : s.dropWhile isSpaceChar = s := by
    cases s with
    | nil => rfl
    | cons c s => simp [hs c mem_cons_self]
  rw [strip, hkeep t hspace, hkeep t.reverse (fun c hc => hspace c (mem_reverse.mp hc)),
    reverse_reverse]

theorem strInt_isSome_iff {n : ℤ} :
    (strInt n).isSome = true ↔ (Nat.toDigits 10 n.natAbs).length ≤ maxStrDigits := by
  unfold strInt
  split_ifs with h <;> simp [h]

theorem parseContent_row (content : ListContent) (h : (strInt content.size).isSome = true) :
    parseContent (contentElement content) = .ok
      { key := strip (normalizeLines content.key)
        etag := stripChar '"' (strip (normalizeLines (quotedEtag content.etag)))
        size := content.size } := by
  have hkey : findElementText (contentElement content) "Key".toList =
      some (strip (normalizeLines content.key)) :=
    findElementText_leaf (by decide)
  have hetag : findElementText (contentElement content) "ETag".toList =
      some (strip (normalizeLines (quotedEtag content.etag))) := by
    rw [contentElement, findElementText_skipLeaf (by decide) (by decide),
      findElementText_skipLeaf (by decide) (by decide)]
    exact findElementText_leaf (by decide)
  have hsize : findElementText (contentElement content) "Size".toList =
      some (intText content.size) := by
    rw [contentElement, findElementText_skipLeaf (by decide) (by decide),
      findElementText_skipLeaf (by decide) (by decide),
      findElementText_skipLeaf (by decide) (by decide), findElementText_leaf (by decide),
      strip_numeric (intText_numeric content.size)]
  have hread := parseInt_intText ((strInt_isSome_iff).mp h)
  have hnonempty := intText_ne_nil content.size
  unfold parseContent
  rw [hkey, hetag, hsize]
  cases hdigits : intText content.size with
  | nil => exact absurd hdigits hnonempty
  | cons c digits =>
    rw [hdigits] at hread
    simp [hread]

theorem mapM_parseContent {contents : List ListContent}
    (h : ∀ content ∈ contents, (strInt content.size).isSome = true) :
    (contents.map contentElement).mapM parseContent = .ok (contents.map (fun content =>
      { key := strip (normalizeLines content.key)
        etag := stripChar '"' (strip (normalizeLines (quotedEtag content.etag)))
        size := content.size })) := by
  induction contents with
  | nil => rfl
  | cons content contents ih =>
    rw [map_cons, mapM_cons, parseContent_row content (h content mem_cons_self),
      ih (fun x hx => h x (mem_cons_of_mem content hx))]
    rfl

theorem mem_leafIf {name : Text} {value : Option Text} {e : Element}
    (h : e ∈ leafIf name value) : e.tag = s3Tag name := by
  cases value with
  | none => cases h
  | some t =>
    unfold leafIf at h
    by_cases ht : t = []
    · simp only [ht, if_true, not_mem_nil] at h
    · simp only [ht, if_false, mem_singleton] at h
      rw [h]
      rfl

def headNames : List Text :=
  ["Name".toList, "Prefix".toList, "Delimiter".toList, "MaxKeys".toList, "IsTruncated".toList,
    "NextContinuationToken".toList]

variable {params : ListBucketParams}

theorem headElements_name {e : Element}
    (h : e ∈ headElements params) : localName e.tag ∈ headNames := by
  have htag : ∃ name ∈ headNames, e.tag = s3Tag name := by
    simp only [headElements, mem_cons, mem_append] at h
    rcases h with rfl | rfl | h | rfl | rfl | h
    · exact ⟨_,mem_cons_self,rfl⟩
    · exact ⟨"Prefix".toList,by decide,rfl⟩
    · exact ⟨_,by decide,mem_leafIf h⟩
    · exact ⟨"MaxKeys".toList,by decide,rfl⟩
    · exact ⟨"IsTruncated".toList,by decide,rfl⟩
    · exact ⟨_,by decide,mem_leafIf h⟩
  obtain ⟨name,hname,htag⟩ := htag
  have hplain : ∀ name ∈ headNames, plainName name = true := by decide
  rw [htag, localName_s3Tag (hplain name hname)]
  exact hname

theorem filter_map_element {α : Type*} (xs : List α) (f : α → Element) {tag : Text} (name : Text)
    (htag : ∀ x, (f x).tag = s3Tag tag) (h : plainName tag = true) :
    (xs.map f).filter (fun e => localName e.tag = name) =
      if tag = name then xs.map f else [] := by
  have hname (e : Element) (he : e ∈ xs.map f) : localName e.tag = tag := by
    obtain ⟨x,_,rfl⟩ := List.mem_map.mp he
    rw [htag x, localName_s3Tag h]
  split_ifs with heq
  · apply filter_eq_self.mpr
    intro e he
    exact decide_eq_true ((hname e he).trans heq)
  · apply filter_eq_nil_iff.mpr
    intro e he hsame
    exact heq ((hname e he).symm.trans (of_decide_eq_true hsame))

theorem iterChildren_listing (params : ListBucketParams) (name : Text) (h : name ∉ headNames) :
    iterChildren (listingElement params) name =
      (if "Contents".toList = name then params.contents.map contentElement else []) ++
        if "CommonPrefixes".toList = name then params.commonPrefixes.map folderElement
        else [] := by
  have hhead : (headElements params).filter (fun e => localName e.tag = name) = [] := by
    apply filter_eq_nil_iff.mpr
    intro e he hsame
    exact h (of_decide_eq_true hsame ▸ headElements_name he)
  have hrows := filter_map_element params.contents contentElement name (fun _ => rfl) (by decide)
  have hfolders := filter_map_element params.commonPrefixes folderElement name (fun _ => rfl)
    (by decide)
  rw [iterChildren, listingElement, Element.children, filter_append, filter_append,
    hhead, hrows, hfolders, nil_append]

theorem find_isTruncated (params : ListBucketParams) :
    findElementText (listingElement params) "IsTruncated".toList =
      some (if params.isTruncated then "true".toList else "false".toList) := by
  rw [listingElement, headElements, cons_append, cons_append, append_assoc,
    findElementText_skipLeaf (by decide) (by decide),
    findElementText_skipLeaf (by decide) (by decide),
    findElementText_leafIf (by decide) (by decide), cons_append, cons_append,
    findElementText_skipLeaf (by decide) (by decide), findElementText_leaf (by decide)]
  cases params.isTruncated <;> decide

theorem find_token (params : ListBucketParams) :
    findElementText (listingElement params) "NextContinuationToken".toList =
      (params.nextContinuationToken.filter (fun t => t ≠ [])).map
        (fun t => strip (normalizeLines t)) := by
  rw [listingElement, headElements, cons_append, cons_append, append_assoc,
    findElementText_skipLeaf (by decide) (by decide),
    findElementText_skipLeaf (by decide) (by decide),
    findElementText_leafIf (by decide) (by decide), cons_append, cons_append,
    findElementText_skipLeaf (by decide) (by decide),
    findElementText_skipLeaf (by decide) (by decide)]
  have hrows := findElementText_rows (s3Tag "ListBucketResult".toList) []
    "NextContinuationToken".toList params.contents params.commonPrefixes (by decide) (by decide)
  cases params.nextContinuationToken with
  | none => exact hrows
  | some t =>
    unfold leafIf
    by_cases ht : t = []
    · simpa only [ht, if_true, nil_append, filter_some, ne_eq, not_true,
        decide_false, Bool.false_eq_true, if_false, map_none] using hrows
    · simp only [ht, if_false, cons_append, nil_append, filter_some, ne_eq,
        not_false_eq_true, decide_true, if_true, map_some]
      exact findElementText_leaf (by decide)

def ListBucketParams.readBack (params : ListBucketParams) : ParsedListBucket where
  contents := params.contents.map (fun content =>
    { key := strip (normalizeLines content.key)
      etag := stripChar '"' (strip (normalizeLines (quotedEtag content.etag)))
      size := content.size })
  commonPrefixes := params.commonPrefixes.map (fun p => strip (normalizeLines p))
  isTruncated := params.isTruncated
  nextContinuationToken := (params.nextContinuationToken.filter (fun t => t ≠ [])).map
    (fun t => strip (normalizeLines t))

theorem parseRoot_listing (h : params.printable) :
    parseRoot (listingElement params) = .ok params.readBack := by
  have hrows := iterChildren_listing params "Contents".toList (by decide)
  have hfolders := iterChildren_listing params "CommonPrefixes".toList (by decide)
  rw [if_pos rfl, if_neg (by decide), append_nil] at hrows
  rw [if_neg (by decide), if_pos rfl, nil_append] at hfolders
  have hfolder (folder : Text) : (findElementText (folderElement folder) "Prefix".toList).getD [] =
      strip (normalizeLines folder) := by
    rw [folderElement, findElementText_leaf (by decide), getD_some]
  have hflag : (((if params.isTruncated then "true".toList else "false".toList).map
      Char.toLower = "true".toList : Bool)) = params.isTruncated := by
    cases params.isTruncated <;> decide
  unfold parseRoot
  rw [hrows, mapM_parseContent h.2, hfolders, find_isTruncated, find_token,
    getD_some, hflag, List.map_map]
  simp only [Function.comp_def, hfolder]
  rfl

theorem parseListBucket_listing (hprint : params.printable)
    (hchars : ∀ t ∈ params.texts, t.all isChar = true) :
    parseListBucket (Utf8.encode (listingDocument params)) = .ok params.readBack := by
  have hall := listingDocument_isChar params
  rw [List.all_eq_true.mpr hchars] at hall
  rw [parseListBucket, Utf8.decodeStrict_encode, bind_some, parse_listingDocument hall]
  exact parseRoot_listing hprint

def ListBucketParams.parsed (params : ListBucketParams) : ParsedListBucket where
  contents := params.contents.map (fun content =>
    { key := content.key, etag := stripChar '"' content.etag, size := content.size })
  commonPrefixes := params.commonPrefixes
  isTruncated := params.isTruncated
  nextContinuationToken := params.nextContinuationToken

def kept (t : Text) : Prop := '\r' ∉ t ∧ strip t = t

theorem strip_normalizeLines_iff (t : Text) : strip (normalizeLines t) = t ↔ kept t := by
  constructor
  · intro h
    have hreturn : '\r' ∉ t := by
      intro hmem
      rw [← h] at hmem
      exact return_not_mem_lineFeeds false t (mem_of_mem_stripWhile isSpaceChar hmem)
    rw [(normalizeLines_eq_self_iff t).mpr hreturn] at h
    exact ⟨hreturn,h⟩
  · rintro ⟨hreturn,hstrip⟩
    rw [(normalizeLines_eq_self_iff t).mpr hreturn, hstrip]

/-- The quotes shield the white space of an ETag, but not its returns. -/
theorem etag_readBack_iff (etag : Text) :
    stripChar '"' (strip (normalizeLines (quotedEtag etag))) = stripChar '"' etag ↔
      '\r' ∉ stripChar '"' etag := by
  constructor
  · intro h hmem
    rw [← h] at hmem
    have hstripped := mem_of_mem_stripWhile (fun x => x == '"') hmem
    exact return_not_mem_lineFeeds false _ (mem_of_mem_stripWhile isSpaceChar hstripped)
  · intro hreturn
    have hquoted : '\r' ∉ quotedEtag etag := by
      simp [quotedEtag, hreturn]
    rw [(normalizeLines_eq_self_iff _).mpr hquoted, quotedEtag,
      strip_eq_self '"' '"' _ (by decide) (by decide)]
    calc stripChar '"' ('"' :: (stripChar '"' etag ++ ['"']))
        = stripChar '"' (stripChar '"' etag ++ ['"']) :=
          stripWhile_append_left ['"'] _ (by simp)
      _ = stripChar '"' (stripChar '"' etag) := stripWhile_append_right _ ['"'] (by simp)
      _ = stripChar '"' etag := stripWhile_stripWhile etag

structure ListBucketParams.Kept (params : ListBucketParams) : Prop where
  keys : ∀ content ∈ params.contents, kept content.key
  etags : ∀ content ∈ params.contents, '\r' ∉ stripChar '"' content.etag
  folders : ∀ folder ∈ params.commonPrefixes, kept folder
  token : ∀ t, params.nextContinuationToken = some t → t ≠ [] ∧ kept t

theorem token_readBack_iff (token : Option Text) :
    (token.filter (fun t => t ≠ [])).map (fun t => strip (normalizeLines t)) = token ↔
      ∀ t, token = some t → t ≠ [] ∧ kept t := by
  cases token with
  | none => simp
  | some t =>
    by_cases ht : t = []
    · simp [ht]
    · simp [filter_some, ht, strip_normalizeLines_iff]

theorem readBack_eq_parsed_iff (params : ListBucketParams) :
    params.readBack = params.parsed ↔ params.Kept := by
  have hrows : params.readBack.contents = params.parsed.contents ↔
      ∀ content ∈ params.contents, kept content.key ∧ '\r' ∉ stripChar '"' content.etag := by
    rw [ListBucketParams.readBack, ListBucketParams.parsed, map_inj_left]
    simp [strip_normalizeLines_iff, etag_readBack_iff]
  have hfolders : params.readBack.commonPrefixes = params.parsed.commonPrefixes ↔
      ∀ folder ∈ params.commonPrefixes, kept folder := by
    have hself : params.commonPrefixes.map (fun p => strip (normalizeLines p)) =
        params.commonPrefixes.map id ↔ _ := map_inj_left
    simp only [List.map_id, id_eq, strip_normalizeLines_iff] at hself
    exact hself
  have htoken : params.readBack.nextContinuationToken = params.parsed.nextContinuationToken ↔
      ∀ t, params.nextContinuationToken = some t → t ≠ [] ∧ kept t :=
    token_readBack_iff params.nextContinuationToken
  constructor
  · intro h
    have hcontents := hrows.mp (congrArg ParsedListBucket.contents h)
    exact ⟨fun content hc => (hcontents content hc).1,fun content hc => (hcontents content hc).2,
      hfolders.mp (congrArg ParsedListBucket.commonPrefixes h),
      htoken.mp (congrArg ParsedListBucket.nextContinuationToken h)⟩
  · intro h
    have hcontents := hrows.mpr (fun content hc => ⟨h.keys content hc,h.etags content hc⟩)
    have hf := hfolders.mpr h.folders
    have ht := htoken.mpr h.token
    cases hback : params.readBack with
    | mk contents commonPrefixes isTruncated nextContinuationToken =>
      rw [hback] at hcontents hf ht
      have hflag : isTruncated = params.isTruncated :=
        (congrArg ParsedListBucket.isTruncated hback).symm
      simp only at hcontents hf ht
      rw [hcontents, hf, ht, hflag]
      rfl

/-- A listing can be read exactly if its numbers can be printed and its texts are XML characters. It
comes back as it was exactly if, besides, nothing is stripped or normalized. -/
theorem listing_round_trips_iff (params : ListBucketParams) :
    ((∃ d, listBucketResult params = some d ∧ WellFormed d) ↔
      params.printable ∧ ∀ t ∈ params.texts, t.all isChar = true) ∧
    ((∃ d, listBucketResult params = some d ∧
        parseListBucket (Utf8.encode d) = .ok params.parsed) ↔
      params.printable ∧ (∀ t ∈ params.texts, t.all isChar = true) ∧ params.Kept) := by
  simp only [listBucketResult_eq_some_iff, and_assoc, exists_and_left]
  refine ⟨?_,?_⟩
  · constructor
    · rintro ⟨hprint,d,rfl,hd⟩
      exact ⟨hprint,(wellFormed_listingDocument_iff params).mp hd⟩
    · rintro ⟨hprint,hchars⟩
      exact ⟨hprint,_,rfl,(wellFormed_listingDocument_iff params).mpr hchars⟩
  · constructor
    · rintro ⟨hprint,d,rfl,hd⟩
      have hform : WellFormed (listingDocument params) := by
        unfold parseListBucket at hd
        rw [Utf8.decodeStrict_encode, bind_some] at hd
        cases hparse : Xml.parse (listingDocument params) with
        | none =>
          rw [hparse] at hd
          cases hd
        | some root =>
          rw [WellFormed, hparse]
          rfl
      have hchars := (wellFormed_listingDocument_iff params).mp hform
      rw [parseListBucket_listing hprint hchars] at hd
      exact ⟨hprint,hchars,(readBack_eq_parsed_iff params).mp (Except.ok.inj hd)⟩
    · rintro ⟨hprint,hchars,hkept⟩
      refine ⟨hprint,_,rfl,?_⟩
      rw [parseListBucket_listing hprint hchars, (readBack_eq_parsed_iff params).mpr hkept]

def listingOf (key : Text) : ListBucketParams where
  name := "photos".toList
  keyPrefix := []
  delimiter := none
  maxKeys := 1000
  isTruncated := false
  nextContinuationToken := none
  contents := [⟨key,⟨2024,6,1,12,30,45⟩,"abc123".toList,42⟩]
  commonPrefixes := []

/-- A control character makes the listing unreadable; a leading blank is lost. -/
theorem admitted_keys_break_listing :
    Key.validate [Char.ofNat 1] = .ok () ∧ Key.validate " a".toList = .ok () ∧
    (∃ d, listBucketResult (listingOf [Char.ofNat 1]) = some d ∧ ¬ WellFormed d) ∧
    ∃ d, listBucketResult (listingOf " a".toList) = some d ∧
      parseListBucket (Utf8.encode d) = .ok (listingOf "a".toList).parsed := by
  refine ⟨by decide,by decide,?_,?_⟩
  · refine ⟨_,(listBucketResult_eq_some_iff).mpr ⟨by decide,rfl⟩,?_⟩
    rw [wellFormed_listingDocument_iff]
    decide
  · refine ⟨_,(listBucketResult_eq_some_iff).mpr ⟨by decide,rfl⟩,?_⟩
    have hback : (listingOf " a".toList).readBack = (listingOf "a".toList).parsed := by decide
    rw [parseListBucket_listing (by decide) (by decide), hback]

end BackendGauntlet.ObjectStore
