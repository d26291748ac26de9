import BackendGauntlet.ObjectStoreNaming
import BackendGauntlet.PyText
import BackendGauntlet.Xml

/-! The XML of listings and errors: emitted by string building, read back with an XML parser. -/
namespace BackendGauntlet.ObjectStore

open PyText Xml List Option

def s3Namespace : Text := "http://s3.amazonaws.com/doc/2006-03-01/".toList

def xmlDeclaration : Text := "<?xml version=\"1.0\" encoding=\"UTF-8\"?>".toList

def replaceChar (c : Char) (new value : Text) : Text :=
  value.flatMap (fun x => if x = c then new else [x])

def stripChar (c : Char) (value : Text) : Text := (lstrip c (lstrip c value).reverse).reverse

/-- `str(n)`; `none` is the `ValueError` of an integer with too many digits. -/
def strInt (n : ℤ) : Option Text :=
  if (Nat.toDigits 10 n.natAbs).length ≤ maxStrDigits then some (intText n) else none

def escape (value : Text) : Text :=
  replaceChar '\'' "&apos;".toList (replaceChar '"' "&quot;".toList
    (replaceChar '>' "&gt;".toList (replaceChar '<' "&lt;".toList
      (replaceChar '&' "&amp;".toList value))))

def quotedEtag (etag : Text) : Text := '"' :: (stripChar '"' etag ++ ['"'])

structure DateTime where
  year : ℕ
  month : ℕ
  day : ℕ
  hour : ℕ
  minute : ℕ
  second : ℕ

def padded (width n : ℕ) : Text :=
  List.replicate (width-(Nat.toDigits 10 n).length) '0' ++ Nat.toDigits 10 n

def iso8601 (moment : DateTime) : Text :=
  padded 4 moment.year ++ '-' :: (padded 2 moment.month ++ '-' :: (padded 2 moment.day ++
    'T' :: (padded 2 moment.hour ++ ':' :: (padded 2 moment.minute ++
      ':' :: (padded 2 moment.second ++ ".000Z".toList)))))

structure ListContent where
  key : Text
  lastModified : DateTime
  etag : Text
  size : ℤ

structure ListBucketParams where
  name : Text
  keyPrefix : Text
  delimiter : Option Text
  maxKeys : ℤ
  isTruncated : Bool
  nextContinuationToken : Option Text
  contents : List ListContent
  commonPrefixes : List Text

def ListContent.row (content : ListContent) (size : Text) : Text :=
  tagged "Contents".toList (tagged "Key".toList (escape content.key) ++
    (tagged "LastModified".toList (iso8601 content.lastModified) ++
      (tagged "ETag".toList (escape (quotedEtag content.etag)) ++
        (tagged "Size".toList size ++ tagged "StorageClass".toList "STANDARD".toList))))

def taggedIf (name : Text) (value : Option Text) : Text :=
  match value with
  | none => []
  | some t => if t = [] then [] else tagged name (escape t)

def listBucketResult (params : ListBucketParams) : Option Text := do
  let maxKeys ← strInt params.maxKeys
  let contents ← params.contents.mapM (fun content => (strInt content.size).map content.row)
  return xmlDeclaration ++ ("<ListBucketResult xmlns=\"".toList ++ s3Namespace ++ "\">".toList ++
    (tagged "Name".toList (escape params.name) ++
      (tagged "Prefix".toList (escape params.keyPrefix) ++
        (taggedIf "Delimiter".toList params.delimiter ++
          (tagged "MaxKeys".toList maxKeys ++
            (tagged "IsTruncated".toList
                (if params.isTruncated then "true".toList else "false".toList) ++
              (taggedIf "NextContinuationToken".toList params.nextContinuationToken ++
                (contents.flatten ++
                  (params.commonPrefixes.flatMap (fun p => tagged "CommonPrefixes".toList
                      (tagged "Prefix".toList (escape p))) ++
                    "</ListBucketResult>".toList)))))))))

def errorXml (code message : Text) : Text :=
  xmlDeclaration ++ tagged "Error".toList
    (tagged "Code".toList (escape code) ++ tagged "Message".toList (escape message))

def localName (tag : Text) : Text := (tag.reverse.takeWhile (fun c => c != '\x7d')).reverse

def findElementText (element : Element) (name : Text) : Option Text :=
  (element.children.find? (fun child => localName child.tag = name)).map
    (fun child => strip child.text)

def iterChildren (element : Element) (name : Text) : List Element :=
  element.children.filter (fun child => localName child.tag = name)

structure ParsedContent where
  key : Text
  etag : Text
  size : ℤ
deriving DecidableEq

structure ParsedListBucket where
  contents : List ParsedContent
  commonPrefixes : List Text
  isTruncated : Bool
  nextContinuationToken : Option Text
deriving DecidableEq

inductive ListingError
  | invalidXml
  | valueError
deriving DecidableEq

structure ParsedError where
  code : Text
  message : Text
deriving DecidableEq

def parseError (data : List ℕ) : Except ListingError ParsedError :=
  match (Utf8.decodeStrict data).bind Xml.parse with
  | none => .error .invalidXml
  | some root => .ok
    { code := (findElementText root "Code".toList).getD []
      message := (findElementText root "Message".toList).getD [] }

def parseContent (element : Element) : Except ListingError ParsedContent :=
  let size := match (findElementText element "Size".toList).getD [] with
    | [] => some 0
    | t => parseInt t
  match size with
  | none => .error .valueError
  | some size => .ok
    { key := (findElementText element "Key".toList).getD []
      etag := stripChar '"' ((findElementText element "ETag".toList).getD [])
      size := size }

/-- What is read off the root. Only ASCII letters have the letters of `true` as lower case. -/
def parseRoot (root : Element) : Except ListingError ParsedListBucket := do
  let contents ← (iterChildren root "Contents".toList).mapM parseContent
  return {
    contents := contents
    commonPrefixes := (iterChildren root "CommonPrefixes".toList).map
      (fun element => (findElementText element "Prefix".toList).getD [])
    isTruncated := ((findElementText root "IsTruncated".toList).getD []).map Char.toLower =
      "true".toList
    nextContinuationToken := findElementText root "NextContinuationToken".toList }

def parseListBucket (data : List ℕ) : Except ListingError ParsedListBucket :=
  match (Utf8.decodeStrict data).bind Xml.parse with
  | none => .error .invalidXml
  | some root => parseRoot root

/-! The five replacements are one pass. -/

theorem escape_append (s t : Text) : escape (s ++ t) = escape s ++ escape t := by
  simp only [escape, replaceChar, flatMap_append]

theorem escape_singleton (c : Char) : escape [c] = escapeChar c := by
  rcases escapeChar_cases c with ⟨hc,_⟩ | ⟨hc,heq⟩
  · simp only [mem_cons, not_mem_nil, or_false] at hc
    rcases hc with rfl | rfl | rfl | rfl | rfl <;> rfl
  · simp only [mem_cons, not_mem_nil, or_false, not_or] at hc
    rw [heq]
    simp only [escape, replaceChar, flatMap_cons, flatMap_nil, append_nil, hc, if_false]

theorem escape_eq (t : Text) : escape t = t.flatMap escapeChar := by
  induction t with
  | nil => rfl
  | cons c t ih =>
    calc escape (c :: t) = escape [c] ++ escape t := escape_append [c] t
      _ = (c :: t).flatMap escapeChar := by rw [escape_singleton, ih, flatMap_cons]

theorem escape_isChar (t : Text) : (escape t).all isChar = t.all isChar := by
  rw [escape_eq, escape_all_isChar]

/-! Names in the namespace of the listing. -/

def s3Scope : Scope := [([],s3Namespace)]

def s3Tag (name : Text) : Text := '\x7b' :: (s3Namespace ++ '\x7d' :: name)

def s3Leaf (name text : Text) : Element := .mk (s3Tag name) text []

theorem expandName_s3Scope {name : Text} (h : plainName name = true) :
    s3Scope.expandName name = some (s3Tag name) := by
  have hcut : cut ':' name = none :=
    (cut_eq_none_iff ':' name).mpr (fun hmem => (plainName_chars name h ':' hmem).2 rfl)
  rw [Scope.expandName, hcut]
  rfl

theorem localName_s3Tag {name : Text} (h : plainName name = true) :
    localName (s3Tag name) = name := by
  have hno : ∀ c ∈ name.reverse, (c != '\x7d') = true := by
    intro c hc
    have hname := (plainName_chars name h c (mem_reverse.mp hc)).1
    rw [bne_iff_ne]
    rintro rfl
    exact absurd hname (by decide)
  have hrev : (s3Tag name).reverse = name.reverse ++
      '\x7d' :: (s3Namespace.reverse ++ ['\x7b']) := by
    simp [s3Tag]
  rw [localName, hrev, takeWhile_append_of_pos hno]
  simp

/-- Escaped text is read back, up to line ends. -/
theorem reads_escaped (name t : Text) (h : plainName name = true) :
    Reads s3Scope (tagged name (escape t)) [s3Leaf name (normalizeLines t)] := by
  apply reads_leaf s3Scope name (s3Tag name) h (expandName_s3Scope h)
  · rw [escape_eq]
    exact mem_escape_plain t '<' (Or.inl rfl)
  · rw [escape_eq]
    exact characterData_escape t

theorem reads_plain (name t : Text) (h : plainName name = true)
    (ht : ∀ c ∈ t, c ∉ ['&', '<', '>', '"', '\'', '\r']) :
    Reads s3Scope (tagged name t) [s3Leaf name t] := by
  apply reads_leaf s3Scope name (s3Tag name) h (expandName_s3Scope h)
  · exact fun hmem => ht _ hmem (by decide)
  · exact characterData_plain ht

def leafIf (name : Text) (value : Option Text) : List Element :=
  match value with
  | none => []
  | some t => if t = [] then [] else [s3Leaf name (normalizeLines t)]

theorem reads_taggedIf (name : Text) (value : Option Text) (h : plainName name = true) :
    Reads s3Scope (taggedIf name value) (leafIf name value) := by
  cases value with
  | none => exact reads_nil s3Scope
  | some t =>
    unfold taggedIf leafIf
    by_cases ht : t = []
    · simp only [ht, if_true]
      exact reads_nil s3Scope
    · simp only [ht, if_false]
      exact reads_escaped name t h

/-! The texts that need no escaping: numbers and instants. -/

def isNumeric (c : Char) : Bool := c.isDigit || c ∈ "-T:.Z".toList

theorem isNumeric_plain {c : Char} (h : isNumeric c = true) :
    c ∉ ['&', '<', '>', '"', '\'', '\r'] ∧ isChar c = true := by
  refine ⟨?_,?_⟩
  · intro hmem
    simp only [mem_cons, not_mem_nil, or_false] at hmem
    rcases hmem with rfl | rfl | rfl | rfl | rfl | rfl <;> exact absurd h (by decide)
  · rcases Bool.or_eq_true _ _ ▸ h with h | h
    · obtain ⟨hlo,hhi⟩ := isDigit_toNat c h
      simp only [isChar, Bool.or_eq_true, Bool.and_eq_true, decide_eq_true_eq]
      omega
    · exact List.all_eq_true.mp (by decide : "-T:.Z".toList.all isChar = true) c
        (of_decide_eq_true h)

theorem padded_numeric (width n : ℕ) : (padded width n).all isNumeric = true := by
  rw [padded, all_append, Bool.and_eq_true]
  refine ⟨?_,?_⟩
  · rw [List.all_eq_true]
    intro c hc
    rw [eq_of_mem_replicate hc]
    decide
  · rw [List.all_eq_true]
    intro c hc
    rw [isNumeric, Nat.isDigit_of_mem_toDigits (by decide) (by decide) hc]
    rfl

theorem iso8601_numeric (moment : DateTime) : (iso8601 moment).all isNumeric = true := by
  have hsign : isNumeric '-' = true ∧ isNumeric 'T' = true ∧ isNumeric ':' = true ∧
      ".000Z".toList.all isNumeric = true := by decide
  simp only [iso8601, all_append, all_cons, padded_numeric, hsign, Bool.and_self]

theorem intText_numeric (n : ℤ) : (intText n).all isNumeric = true := by
  rw [List.all_eq_true]
  intro c hc
  rcases mem_intText hc with h | rfl
  · rw [isNumeric, h]
    rfl
  · decide

theorem reads_numeric (name t : Text) (h : plainName name = true)
    (ht : t.all isNumeric = true) : Reads s3Scope (tagged name t) [s3Leaf name t] :=
  reads_plain name t h (fun c hc => (isNumeric_plain (List.all_eq_true.mp ht c hc)).1)

theorem numeric_isChar {t : Text} (ht : t.all isNumeric = true) : t.all isChar = true := by
  rw [List.all_eq_true] at ht ⊢
  exact fun c hc => (isNumeric_plain (ht c hc)).2

/-! The tree of a listing. -/

def contentElement (content : ListContent) : Element :=
  .mk (s3Tag "Contents".toList) [] [s3Leaf "Key".toList (normalizeLines content.key),
    s3Leaf "LastModified".toList (iso8601 content.lastModified),
    s3Leaf "ETag".toList (normalizeLines (quotedEtag content.etag)),
    s3Leaf "Size".toList (intText content.size), s3Leaf "StorageClass".toList "STANDARD".toList]

def folderElement (folder : Text) : Element :=
  .mk (s3Tag "CommonPrefixes".toList) [] [s3Leaf "Prefix".toList (normalizeLines folder)]

def headElements (params : ListBucketParams) : List Element :=
  s3Leaf "Name".toList (normalizeLines params.name) ::
    s3Leaf "Prefix".toList (normalizeLines params.keyPrefix) ::
    (leafIf "Delimiter".toList params.delimiter ++
      s3Leaf "MaxKeys".toList (intText params.maxKeys) ::
      s3Leaf "IsTruncated".toList
        (if params.isTruncated then "true".toList else "false".toList) ::
      leafIf "NextContinuationToken".toList params.nextContinuationToken)

def listingElement (params : ListBucketParams) : Element :=
  .mk (s3Tag "ListBucketResult".toList) [] (headElements params ++
    (params.contents.map contentElement ++ params.commonPrefixes.map folderElement))

def listingBody (params : ListBucketParams) : Text :=
  tagged "Name".toList (escape params.name) ++
    (tagged "Prefix".toList (escape params.keyPrefix) ++
      (taggedIf "Delimiter".toList params.delimiter ++
        (tagged "MaxKeys".toList (intText params.maxKeys) ++
          (tagged "IsTruncated".toList
              (if params.isTruncated then "true".toList else "false".toList) ++
            (taggedIf "NextContinuationToken".toList params.nextContinuationToken ++
              ((params.contents.flatMap (fun content => content.row (intText content.size))) ++
                params.commonPrefixes.flatMap (fun p => tagged "CommonPrefixes".toList
                  (tagged "Prefix".toList (escape p)))))))))

theorem reads_row (content : ListContent) :
    Reads s3Scope (content.row (intText content.size)) [contentElement content] := by
  apply reads_node s3Scope _ (s3Tag "Contents".toList) (by decide) (expandName_s3Scope (by decide))
  have hkey := reads_escaped "Key".toList content.key (by decide)
  have hmoment := reads_numeric "LastModified".toList _ (by decide)
    (iso8601_numeric content.lastModified)
  have hetag := reads_escaped "ETag".toList (quotedEtag content.etag) (by decide)
  have hsize := reads_numeric "Size".toList _ (by decide) (intText_numeric content.size)
  have hclass := reads_plain "StorageClass".toList "STANDARD".toList (by decide)
    (forall_mem_of_all (by decide))
  have h := reads_append _ _ _ _ _ hkey (reads_append _ _ _ _ _ hmoment
    (reads_append _ _ _ _ _ hetag (reads_append _ _ _ _ _ hsize hclass)))
  exact h

theorem reads_folder (folder : Text) :
    Reads s3Scope (tagged "CommonPrefixes".toList (tagged "Prefix".toList (escape folder)))
      [folderElement folder] :=
  reads_node s3Scope _ (s3Tag "CommonPrefixes".toList) (by decide)
    (expandName_s3Scope (by decide)) (reads_escaped "Prefix".toList folder (by decide))

theorem reads_listingBody (params : ListBucketParams) :
    Reads s3Scope (listingBody params) (listingElement params).children := by
  have hname := reads_escaped "Name".toList params.name (by decide)
  have hunder := reads_escaped "Prefix".toList params.keyPrefix (by decide)
  have hdelimiter := reads_taggedIf "Delimiter".toList params.delimiter (by decide)
  have hmax := reads_numeric "MaxKeys".toList _ (by decide) (intText_numeric params.maxKeys)
  have hflag := reads_plain "IsTruncated".toList
    (if params.isTruncated then "true".toList else "false".toList) (by decide)
    (by cases params.isTruncated <;> exact forall_mem_of_all (by decide))
  have htoken := reads_taggedIf "NextContinuationToken".toList params.nextContinuationToken
    (by decide)
  have hrows := reads_flatMap s3Scope params.contents
    (fun content => content.row (intText content.size)) contentElement
    (fun content _ => reads_row content)
  have hfolders := reads_flatMap s3Scope params.commonPrefixes
    (fun p => tagged "CommonPrefixes".toList (tagged "Prefix".toList (escape p))) folderElement
    (fun folder _ => reads_folder folder)
  have h := reads_append _ _ _ _ _ hname (reads_append _ _ _ _ _ hunder
    (reads_append _ _ _ _ _ hdelimiter (reads_append _ _ _ _ _ hmax
      (reads_append _ _ _ _ _ hflag (reads_append _ _ _ _ _ htoken
        (reads_append _ _ _ _ _ hrows hfolders))))))
  simpa only [listingBody, listingElement, Element.children, headElements, cons_append,
    nil_append, append_assoc] using h

def listingHead : Text :=
  xmlDeclaration ++ ("<ListBucketResult xmlns=\"".toList ++ s3Namespace ++ "\">".toList)

def listingDocument (params : ListBucketParams) : Text :=
  listingHead ++ (listingBody params ++ "</ListBucketResult>".toList)

def rootTag : Text := "ListBucketResult xmlns=".toList

/-- The listing is parsed to the tree it was printed from. -/
theorem parse_listingDocument {params : ListBucketParams}
    (h : (listingDocument params).all isChar = true) :
    Xml.parse (listingDocument params) = some (listingElement params) := by
  have hroot : readTag (rootTag ++ '"' :: (s3Namespace ++ ['"'])) =
      some (.start "ListBucketResult".toList [("xmlns".toList,s3Namespace)] false) := by
    decide +kernel
  apply parse_document "?xml version=\"1.0\" encoding=\"UTF-8\"?".toList
    (rootTag ++ '"' :: (s3Namespace ++ ['"'])) "ListBucketResult".toList
    (s3Tag "ListBucketResult".toList) (listingBody params) [("xmlns".toList,s3Namespace)] _
    (fun s => rfl) (fun ts => rfl)
    (isMarkup_attribute (forall_mem_of_all (by decide)) (by decide) (by decide)) hroot
    (by decide) (by decide +kernel) (reads_listingBody params) _ _ h
  rfl

def ListBucketParams.printable (params : ListBucketParams) : Prop :=
  (strInt params.maxKeys).isSome = true ∧
    ∀ content ∈ params.contents, (strInt content.size).isSome = true

instance (params : ListBucketParams) : Decidable params.printable :=
  inferInstanceAs (Decidable (_ ∧ _))

theorem strInt_eq_some {n : ℤ} (h : (strInt n).isSome = true) : strInt n = some (intText n) := by
  unfold strInt at h ⊢
  split_ifs at h ⊢
  · rfl
  · cases h

theorem mapM_row_eq_some_iff (contents : List ListContent) (rows : List Text) :
    contents.mapM (fun content => (strInt content.size).map content.row) = some rows ↔
      (∀ content ∈ contents, (strInt content.size).isSome = true) ∧
        rows = contents.map (fun content => content.row (intText content.size)) := by
  induction contents generalizing rows with
  | nil =>
    simp only [mapM_nil, Option.pure_def, some.injEq, not_mem_nil,
      false_implies, implies_true, true_and, map_nil]
    exact eq_comm
  | cons content contents ih =>
    cases hsize : strInt content.size with
    | none => simp [mapM_cons, hsize]
    | some size =>
      have htext := strInt_eq_some (by rw [hsize]; rfl)
      rw [hsize] at htext
      simp only [mapM_cons, hsize, map_some, bind_eq_bind, bind_some,
        bind_eq_some_iff, ih, Option.pure_def, some.injEq, forall_mem_cons,
        isSome_some, true_and, map_cons, ← some.inj htext]
      constructor
      · rintro ⟨rest,⟨hprint,rfl⟩,rfl⟩
        exact ⟨hprint,rfl⟩
      · rintro ⟨hprint,rfl⟩
        exact ⟨_,⟨hprint,rfl⟩,rfl⟩

theorem listBucketResult_eq_some_iff {params : ListBucketParams} {d : Text} :
    listBucketResult params = some d ↔ params.printable ∧ d = listingDocument params := by
  have hbody (rows : List Text)
      (h : rows = params.contents.map (fun content => content.row (intText content.size))) :
      rows.flatten = params.contents.flatMap
        (fun content => content.row (intText content.size)) := by
    rw [h, flatMap_def]
  cases hmax : strInt params.maxKeys with
  | none => simp [listBucketResult, ListBucketParams.printable, hmax]
  | some maxKeys =>
    have htext := strInt_eq_some (by rw [hmax]; rfl)
    rw [hmax] at htext
    simp only [listBucketResult, ListBucketParams.printable, hmax, bind_eq_bind,
      bind_some, bind_eq_some_iff, mapM_row_eq_some_iff, Option.pure_def,
      some.injEq, isSome_some, true_and, some.inj htext]
    constructor
    · rintro ⟨rows,⟨hprint,hrows⟩,rfl⟩
      rw [hbody rows hrows]
      refine ⟨hprint,?_⟩
      simp only [listingDocument, listingHead, listingBody, append_assoc]
    · rintro ⟨hprint,rfl⟩
      refine ⟨_,⟨hprint,rfl⟩,?_⟩
      rw [hbody _ rfl]
      simp only [listingDocument, listingHead, listingBody, append_assoc]

/-! Which documents can be read. -/

def ListBucketParams.texts (params : ListBucketParams) : List Text :=
  params.name :: params.keyPrefix :: (params.delimiter.toList ++
    (params.nextContinuationToken.toList ++
      (params.contents.flatMap (fun content => [content.key, quotedEtag content.etag]) ++
        params.commonPrefixes)))

theorem tagged_isChar {name : Text} {inner : Text} (h : name.all isChar = true) :
    (tagged name inner).all isChar = inner.all isChar := by
  have hsigns : isChar '<' = true ∧ isChar '>' = true ∧ isChar '/' = true := by decide
  simp [tagged, h, hsigns]

theorem taggedIf_isChar {name : Text} {value : Option Text} (h : name.all isChar = true) :
    (taggedIf name value).all isChar = value.toList.all (fun t => t.all isChar) := by
  cases value with
  | none => rfl
  | some t =>
    simp only [taggedIf, toList_some, all_cons, all_nil, Bool.and_true]
    split_ifs with ht
    · rw [ht]
    · rw [tagged_isChar h, escape_isChar]

theorem row_isChar (content : ListContent) :
    (content.row (intText content.size)).all isChar =
      (content.key.all isChar && (quotedEtag content.etag).all isChar) := by
  have hclass : "STANDARD".toList.all isChar = true := by decide
  rw [ListContent.row, tagged_isChar (by decide), all_append, all_append,
    all_append, all_append, tagged_isChar (by decide),
    tagged_isChar (by decide), tagged_isChar (by decide),
    tagged_isChar (by decide), tagged_isChar (by decide), escape_isChar,
    escape_isChar, numeric_isChar (iso8601_numeric content.lastModified),
    numeric_isChar (intText_numeric content.size), hclass]
  simp

/-- The names decide whether the document has legal characters only. -/
theorem listingDocument_isChar (params : ListBucketParams) :
    (listingDocument params).all isChar = params.texts.all (fun t => t.all isChar) := by
  have hhead : listingHead.all isChar = true ∧
      "</ListBucketResult>".toList.all isChar = true := by decide +kernel
  have hflag : (if params.isTruncated then "true".toList else "false".toList).all isChar =
      true := by
    cases params.isTruncated <;> decide
  have hbody : (listingBody params).all isChar = params.texts.all (fun t => t.all isChar) := by
    simp only [listingBody, ListBucketParams.texts, all_append, all_cons,
      all_flatMap, row_isChar, all_nil, Bool.and_true]
    rw [tagged_isChar (by decide), tagged_isChar (by decide),
      taggedIf_isChar (by decide), tagged_isChar (by decide),
      tagged_isChar (by decide), taggedIf_isChar (by decide), escape_isChar,
      escape_isChar, numeric_isChar (intText_numeric params.maxKeys), hflag]
    have hfolder (folder : Text) : (tagged "CommonPrefixes".toList
        (tagged "Prefix".toList (escape folder))).all isChar = folder.all isChar := by
      rw [tagged_isChar (by decide), tagged_isChar (by decide), escape_isChar]
    simp only [hfolder, Bool.true_and]
  rw [listingDocument, all_append, all_append, hbody, hhead.1, hhead.2,
    Bool.true_and, Bool.and_true]

theorem wellFormed_listingDocument_iff (params : ListBucketParams) :
    WellFormed (listingDocument params) ↔ ∀ t ∈ params.texts, t.all isChar = true := by
  have hchars := listingDocument_isChar params
  constructor
  · intro h
    rw [wellFormed_all_isChar h] at hchars
    exact List.all_eq_true.mp hchars.symm
  · intro h
    rw [List.all_eq_true.mpr h] at hchars
    rw [WellFormed, parse_listingDocument hchars]
    rfl

end BackendGauntlet.ObjectStore
