import BackendGauntlet.ObjectStoreNaming
import BackendGauntlet.Posix

/-! Multipart sessions on disk. An upload id is joined to a path as the client sent it. -/
namespace BackendGauntlet.ObjectStore

open PyText Posix List Option

def maxPartNumber : ℤ := 10000

def sessionFile : Text := "session.json".toList

structure PartETag where
  partNumber : ℤ
  etag : Text
deriving DecidableEq

structure UploadSession where
  bucket : Bucket
  key : Key
  contentType : Text

/-- `str(uuid.uuid4())`: 36 hexadecimal digits and hyphens. -/
structure UploadId where
  text : Text
  valid : text.length = 36 ∧
    text.all (fun c => (48 ≤ c.toNat && c.toNat ≤ 57) || (97 ≤ c.toNat && c.toNat ≤ 102) ||
      c == '-') = true

structure Outcome (α : Type) where
  result : Except OpError α
  tree : Tree
  log : List Access

structure PartBody where
  chunks : List (List ℕ)
  broken : Bool

def partName (n : ℤ) : Text :=
  let digits := Nat.toDigits 10 n.natAbs
  let sign := if n < 0 then ['-'] else []
  sign ++ List.replicate (5-sign.length-digits.length) '0' ++ digits ++ ".part".toList

def capped (maxPartSize : ℕ) : List ℕ → List (List ℕ) → Option (List ℕ)
  | acc, [] => some acc
  | acc, chunk :: rest =>
    if maxPartSize < acc.length+chunk.length then none else capped maxPartSize (acc ++ chunk) rest

def validatePartList : List PartETag → Except AppError Unit
  | [] => .error (.invalidRequest "complete requires at least one part")
  | ordered =>
    if (ordered.zip ordered.tail).any (fun p => p.1.partNumber == p.2.partNumber) then
      .error (.invalidRequest "duplicate part numbers in complete request")
    else .ok ()

section
variable (uploads : Place)

def stagingDir (uploadId : Text) : List Text := join uploads uploadId

def sessionPath (uploadId : Text) : List Text := stagingDir uploads uploadId ++ [sessionFile]

def partPath (uploadId : Text) (n : ℤ) : List Text := stagingDir uploads uploadId ++ [partName n]

def stagedPart (t : Tree) (uploadId : Text) (n : ℤ) : Option (List ℕ) :=
  (readFile t (partPath uploads uploadId n)).map Prod.snd

/-- Only that the joined path is some directory. -/
def requireSession (t : Tree) (uploadId : Text) : Option Place :=
  locateDir t (stagingDir uploads uploadId)

variable (md5 : List ℕ → Text)

def uploadPart (t : Tree) (uploadId : Text) (partNumber : ℤ) (body : PartBody)
    (maxPartSize : ℕ) : Outcome PartETag :=
  if ¬ (1 ≤ partNumber ∧ partNumber ≤ maxPartNumber) then
    ⟨.error (.app (.invalidRequest ("part_number must be between 1 and 10000, got " ++
      toString partNumber))),t,[]⟩
  else
    match requireSession uploads t uploadId with
    | none => ⟨.error (.app .noSuchUpload),t,[]⟩
    | some staging =>
      let part := staging ++ [partName partNumber]
      -- Opening a directory for writing fails, and so does the guard's unlink.
      if t.get part = some .dir then ⟨.error .osError,t,[]⟩
      else
        match capped maxPartSize [] body.chunks with
        | none => ⟨.error (.app .entityTooLarge),t.erase part,[.create part, .delete part]⟩
        | some content =>
          if body.broken then
            ⟨.error .clientDisconnect,t.erase part,[.create part, .delete part]⟩
          else ⟨.ok ⟨partNumber,md5 content⟩,t.set part (.file content),[.create part]⟩

def assemble (t : Tree) (uploadId : Text) :
    List ℕ → List Text → List PartETag → Except AppError (List ℕ × List Text) × List Access
  | acc, md5s, [] => (.ok (acc,md5s),[])
  | acc, md5s, part :: rest =>
    match readFile t (partPath uploads uploadId part.partNumber) with
    | none => (.error (.invalidRequest ("no staged part " ++ toString part.partNumber)),[])
    | some (place,content) =>
      let staged := md5 content
      if staged ≠ part.etag then
        (.error (.invalidRequest ("part " ++ toString part.partNumber ++
          " etag mismatch: client " ++ String.ofList part.etag ++ " != staged " ++
          String.ofList staged)),[.read place])
      else
        let r := assemble t uploadId (acc ++ content) (md5s ++ [staged]) rest
        (r.1,.read place :: r.2)

/-- `finish` stands for `Store.commit_temp` on the assembled blob followed by `Index.put`, which may
raise. -/
def complete (parseSession : List ℕ → Option UploadSession)
    (finish : UploadSession → List ℕ → List Text → Tree → Except OpError Unit × Tree)
    (t : Tree) (uploadId : Text) (parts : List PartETag) : Outcome Unit :=
  let ordered := parts.insertionSort (fun a b => a.partNumber ≤ b.partNumber)
  match validatePartList ordered with
  | .error e => ⟨.error (.app e),t,[]⟩
  | .ok _ =>
    match requireSession uploads t uploadId with
    | none => ⟨.error (.app .noSuchUpload),t,[]⟩
    | some _ =>
      match readFile t (sessionPath uploads uploadId) with
      | none => ⟨.error (.app .noSuchUpload),t,[]⟩
      | some (place,raw) =>
        match parseSession raw with
        | none => ⟨.error .validationError,t,[.read place]⟩
        | some session =>
          match assemble uploads md5 t uploadId [] [] ordered with
          | (.error e,log) => ⟨.error (.app e),t,.read place :: log⟩
          | (.ok (content,md5s),log) =>
            match finish session content md5s t with
            | (.error e,t') => ⟨.error e,t',.read place :: log⟩
            | (.ok _,t') =>
              let removed := rmtree t' (stagingDir uploads uploadId)
              ⟨.ok (),removed.1,.read place :: (log ++ removed.2)⟩

def abort (t : Tree) (uploadId : Text) : Outcome Unit :=
  match requireSession uploads t uploadId with
  | none => ⟨.error (.app .noSuchUpload),t,[]⟩
  | some _ =>
    let removed := rmtree t (stagingDir uploads uploadId)
    ⟨.ok (),removed.1,removed.2⟩

/-- Refused, or all it worked on belongs to one initiated session. -/
def Confined {α : Type} (issued : List UploadId) (o : Outcome α) : Prop :=
  o.result = .error (.app .noSuchUpload) ∨
  (∃ m, o.result = .error (.app (.invalidRequest m))) ∨
  ∃ id ∈ issued, ∀ a ∈ o.log, uploads ++ [id.text] <+: a.place

end

theorem getLast_partName (n : ℤ) : (partName n).getLast? = some 't' := by
  simp [partName]

theorem partName_ne_dotdot (n : ℤ) : partName n ≠ dotdot := by
  intro h
  have := getLast_partName n
  rw [h] at this
  exact absurd this (by decide)

variable {t : Tree} {uploadId : Text} {p : Place}

section
variable (uploads : Place) (md5 : List ℕ → Text)

theorem requireSession_eq_lexical
    (h : requireSession uploads t uploadId = some p) :
    p = lexical [] (stagingDir uploads uploadId) :=
  locateDir_eq_lexical h

inductive PartOutcome (t : Tree) (uploadId : Text) (n : ℤ) : Outcome PartETag → Prop
  | badNumber (m : String) (hn : ¬ (1 ≤ n ∧ n ≤ maxPartNumber)) :
    PartOutcome t uploadId n ⟨.error (.app (.invalidRequest m)),t,[]⟩
  | noSession (hreq : requireSession uploads t uploadId = none) :
    PartOutcome t uploadId n ⟨.error (.app .noSuchUpload),t,[]⟩
  | directory (staging : Place) (hreq : requireSession uploads t uploadId = some staging)
      (hdir : t.get (staging ++ [partName n]) = some .dir) :
    PartOutcome t uploadId n ⟨.error .osError,t,[]⟩
  | discarded (staging : Place) (e : OpError) (hn : 1 ≤ n ∧ n ≤ maxPartNumber)
      (hreq : requireSession uploads t uploadId = some staging)
      (hdir : t.get (staging ++ [partName n]) ≠ some .dir) :
    PartOutcome t uploadId n ⟨.error e,t.erase (staging ++ [partName n]),
      [.create (staging ++ [partName n]), .delete (staging ++ [partName n])]⟩
  | staged (staging : Place) (content : List ℕ)
      (hreq : requireSession uploads t uploadId = some staging) :
    PartOutcome t uploadId n ⟨.ok ⟨n,md5 content⟩,
      t.set (staging ++ [partName n]) (.file content),[.create (staging ++ [partName n])]⟩

theorem uploadPart_outcome (t : Tree) (uploadId : Text) (n : ℤ) (body : PartBody)
    (maxPartSize : ℕ) :
    PartOutcome uploads md5 t uploadId n
      (uploadPart uploads md5 t uploadId n body maxPartSize) := by
  unfold uploadPart
  by_cases hn : 1 ≤ n ∧ n ≤ maxPartNumber
  · rw [if_neg (not_not.mpr hn)]
    cases hreq : requireSession uploads t uploadId with
    | none => exact PartOutcome.noSession hreq
    | some staging =>
      by_cases hdir : t.get (staging ++ [partName n]) = some .dir
      · simp only [hdir, if_true]
        exact PartOutcome.directory staging hreq hdir
      · simp only [hdir, if_false]
        cases capped maxPartSize [] body.chunks with
        | none => exact PartOutcome.discarded staging _ hn hreq hdir
        | some content =>
          simp only
          split_ifs with hbroken
          · exact PartOutcome.discarded staging _ hn hreq hdir
          · exact PartOutcome.staged staging content hreq
  · rw [if_pos hn]
    exact PartOutcome.badNumber _ hn

theorem uploadPart_log {n : ℤ} {body : PartBody}
    {maxPartSize : ℕ} (hp : requireSession uploads t uploadId = some p) (a : Access)
    (ha : a ∈ (uploadPart uploads md5 t uploadId n body maxPartSize).log) : p <+: a.place := by
  have hpart : p <+: p ++ [partName n] := prefix_append _ _
  have hout := uploadPart_outcome uploads md5 t uploadId n body maxPartSize
  generalize uploadPart uploads md5 t uploadId n body maxPartSize = o at ha hout
  cases hout with
  | badNumber m hn => cases ha
  | noSession hreq => cases ha
  | directory staging hreq hdir => cases ha
  | discarded staging e hn hreq hdir =>
    cases hp.symm.trans hreq
    simp only [mem_cons, not_mem_nil, or_false] at ha
    rcases ha with rfl | rfl
    · exact hpart
    · exact hpart
  | staged staging content hreq =>
    cases hp.symm.trans hreq
    rw [mem_singleton.mp ha]
    exact hpart

theorem assemble_log (t : Tree) (uploadId : Text) (acc : List ℕ) (md5s : List Text)
    (parts : List PartETag) (a : Access)
    (ha : a ∈ (assemble uploads md5 t uploadId acc md5s parts).2) :
    lexical [] (stagingDir uploads uploadId) <+: a.place := by
  induction parts generalizing acc md5s with
  | nil => cases ha
  | cons part rest ih =>
    unfold assemble at ha
    cases hr : readFile t (partPath uploads uploadId part.partNumber) with
    | none =>
      rw [hr] at ha
      cases ha
    | some r =>
      have hplace : lexical [] (stagingDir uploads uploadId) <+: r.1 :=
        readFile_place (partName_ne_dotdot part.partNumber) hr
      rw [hr] at ha
      simp only at ha
      split_ifs at ha
      · rw [mem_singleton.mp ha]
        exact hplace
      · rcases mem_cons.mp ha with rfl | ha
        · exact hplace
        · exact ih _ _ ha

theorem complete_log (parseSession : List ℕ → Option UploadSession)
    (finish : UploadSession → List ℕ → List Text → Tree → Except OpError Unit × Tree)
    {parts : List PartETag} {a : Access}
    (ha : a ∈ (complete uploads md5 parseSession finish t uploadId parts).log) :
    lexical [] (stagingDir uploads uploadId) <+: a.place := by
  unfold complete at ha
  simp only at ha
  split at ha
  · cases ha
  split at ha
  · cases ha
  cases hr : readFile t (sessionPath uploads uploadId) with
  | none =>
    rw [hr] at ha
    cases ha
  | some r =>
    have hplace : lexical [] (stagingDir uploads uploadId) <+: r.1 :=
      readFile_place (by decide) hr
    have hparts := assemble_log uploads md5 t uploadId [] []
      (parts.insertionSort (fun a b => a.partNumber ≤ b.partNumber)) a
    rw [hr] at ha
    simp only at ha
    split at ha
    · rw [mem_singleton.mp ha]
      exact hplace
    -- Past the session file: the parts that were read, then the tree removal.
    · split at ha
      · next e log hlog =>
        rw [hlog] at hparts
        rcases mem_cons.mp ha with rfl | ha
        · exact hplace
        · exact hparts ha
      · next content md5s log hlog =>
        rw [hlog] at hparts
        split at ha
        · rcases mem_cons.mp ha with rfl | ha
          · exact hplace
          · exact hparts ha
        · rcases mem_cons.mp ha with rfl | ha
          · exact hplace
          · rcases mem_append.mp ha with ha | ha
            · exact hparts ha
            · exact rmtree_log ha

theorem confined_of_log {α : Type} {issued : List UploadId} {o : Outcome α}
    {id : UploadId} (hid : id ∈ issued) (hp : uploads ++ [id.text] <+: p)
    (hlog : ∀ a ∈ o.log, p <+: a.place) : Confined uploads issued o :=
  Or.inr (Or.inr ⟨id,hid,fun a ha => hp.trans (hlog a ha)⟩)

/-- Confined exactly when the joined path names no directory, or one inside a session. -/
theorem multipart_confined_iff (parseSession : List ℕ → Option UploadSession)
    (finish : UploadSession → List ℕ → List Text → Tree → Except OpError Unit × Tree)
    (issued : List UploadId) (t : Tree) (uploadId : Text) :
    ((∀ n body maxPartSize, Confined uploads issued
        (uploadPart uploads md5 t uploadId n body maxPartSize)) ∧
      (∀ parts, Confined uploads issued
        (complete uploads md5 parseSession finish t uploadId parts)) ∧
      Confined uploads issued (abort uploads t uploadId)) ↔
    ∀ p, locateDir t (join uploads uploadId) = some p →
      ∃ id ∈ issued, uploads ++ [id.text] <+: p := by
  constructor
  · rintro ⟨_,_,habort⟩ p hp
    have hreq : requireSession uploads t uploadId = some p := hp
    simp only [abort, hreq] at habort
    rcases habort with h | ⟨m,h⟩ | ⟨id,hid,hlog⟩
    · cases h
    · cases h
    · exact ⟨id,hid,hlog (.read p) (rmtree_reads hp)⟩
  · intro hcond
    cases hreq : requireSession uploads t uploadId with
    | none =>
      refine ⟨?_,?_,?_⟩
      · intro n body maxPartSize
        have hout := uploadPart_outcome uploads md5 t uploadId n body maxPartSize
        generalize uploadPart uploads md5 t uploadId n body maxPartSize = o at hout
        cases hout with
        | badNumber m hn => exact Or.inr (Or.inl ⟨m,rfl⟩)
        | noSession hnone => exact Or.inl rfl
        | directory staging hsome hdir | discarded staging e hn hsome hdir
        | staged staging content hsome => cases hreq.symm.trans hsome
      · intro parts
        unfold complete
        simp only
        cases hv : validatePartList
            (parts.insertionSort (fun a b => a.partNumber ≤ b.partNumber)) with
        | error e =>
          obtain ⟨m,rfl⟩ : ∃ m, e = .invalidRequest m := by
            unfold validatePartList at hv
            split at hv
            · exact ⟨_,(Except.error.inj hv).symm⟩
            · split_ifs at hv
              exact ⟨_,(Except.error.inj hv).symm⟩
          exact Or.inr (Or.inl ⟨m,rfl⟩)
        | ok u =>
          simp only [hreq]
          exact Or.inl rfl
      · simp only [abort, hreq]
        exact Or.inl rfl
    | some p =>
      obtain ⟨id,hid,hin⟩ := hcond p hreq
      have hp := requireSession_eq_lexical uploads hreq
      refine ⟨?_,?_,?_⟩
      · intro n body maxPartSize
        exact confined_of_log uploads hid hin (uploadPart_log uploads md5 hreq)
      · intro parts
        exact confined_of_log uploads hid hin (fun a ha =>
          hp ▸ complete_log uploads md5 parseSession finish ha)
      · refine confined_of_log uploads hid hin (fun a ha => ?_)
        simp only [abort, hreq] at ha
        exact hp ▸ rmtree_log ha

theorem stagedPart_eq_some_iff (t : Tree) (uploadId : Text) (n : ℤ) (content : List ℕ) :
    stagedPart uploads t uploadId n = some content ↔
      ∃ staging, requireSession uploads t uploadId = some staging ∧
        t.get (staging ++ [partName n]) = some (.file content) := by
  have hsnoc := locate_snoc t (stagingDir uploads uploadId) (partName n) (partName_ne_dotdot n)
  simp only [stagedPart, map_eq_some_iff, Prod.exists, exists_eq_right, partPath,
    readFile_eq_some_iff, hsnoc, bind_eq_some_iff, requireSession]
  constructor
  · rintro ⟨p,⟨staging,hdir,hp⟩,hget⟩
    split_ifs at hp with hin
    exact ⟨staging,hdir,by rw [some.inj hp]; exact hget⟩
  · rintro ⟨staging,hdir,hget⟩
    exact ⟨_,⟨staging,hdir,by simp [Dict.contains, hget]⟩,hget⟩

theorem failed_part_outcome {n : ℤ} {o : Outcome PartETag}
    (hout : PartOutcome uploads md5 t uploadId n o) {e : OpError} (hfail : o.result = .error e) :
    (o.tree = t ∧ (¬ (1 ≤ n ∧ n ≤ maxPartNumber) ∨ stagedPart uploads t uploadId n = none)) ∨
      (stagedPart uploads o.tree uploadId n = none ∧ (1 ≤ n ∧ n ≤ maxPartNumber) ∧
        (stagedPart uploads t uploadId n = none → o.tree = t)) := by
  have hiff := stagedPart_eq_some_iff uploads t uploadId n
  cases hout with
  | badNumber m hn => exact Or.inl ⟨rfl,Or.inl hn⟩
  | noSession hreq =>
    refine Or.inl ⟨rfl,Or.inr (eq_none_iff_forall_ne_some.mpr ?_)⟩
    intro content hpart
    obtain ⟨staging,hsome,_⟩ := (hiff content).mp hpart
    cases hreq.symm.trans hsome
  | directory staging hreq hdir =>
    refine Or.inl ⟨rfl,Or.inr (eq_none_iff_forall_ne_some.mpr ?_)⟩
    intro content hpart
    obtain ⟨staging',hsome,hfile⟩ := (hiff content).mp hpart
    cases hreq.symm.trans hsome
    cases hdir.symm.trans hfile
  | discarded staging e' hn hreq hdir =>
    refine Or.inr ⟨eq_none_iff_forall_ne_some.mpr ?_,hn,?_⟩
    · -- the path of the session leads to the same place in both trees
      intro content hpart
      obtain ⟨staging',hsome,hfile⟩ := (stagedPart_eq_some_iff uploads _ uploadId n content).mp
        hpart
      have hplace := requireSession_eq_lexical uploads hsome
      rw [← requireSession_eq_lexical uploads hreq] at hplace
      rw [hplace, Dict.get_erase_self] at hfile
      cases hfile
    · intro hnone
      apply Dict.erase_eq_self
      cases hget : t.get (staging ++ [partName n]) with
      | none => rfl
      | some node =>
        cases node with
        | dir => exact absurd hget hdir
        | file content =>
          have hpart := (hiff content).mpr ⟨staging,hreq,hget⟩
          cases hnone.symm.trans hpart
  | staged staging content hreq => cases hfail

/-- A failed upload leaves the staged parts as they were exactly where its number is refused or the
part was not staged before. -/
theorem failed_upload_part_keeps_parts_iff (parseSession : List ℕ → Option UploadSession)
    (finish : UploadSession → List ℕ → List Text → Tree → Except OpError Unit × Tree)
    (t : Tree) (uploadId : Text) (n : ℤ) (body : PartBody) (maxPartSize : ℕ) (e : OpError)
    (hfail : (uploadPart uploads md5 t uploadId n body maxPartSize).result = .error e) :
    let after := (uploadPart uploads md5 t uploadId n body maxPartSize).tree
    ((∀ m, stagedPart uploads after uploadId m = stagedPart uploads t uploadId m) ↔
      ¬ (1 ≤ n ∧ n ≤ maxPartNumber) ∨ stagedPart uploads t uploadId n = none) ∧
    (¬ (1 ≤ n ∧ n ≤ maxPartNumber) ∨ stagedPart uploads t uploadId n = none →
      after = t ∧ ∀ parts, complete uploads md5 parseSession finish after uploadId parts =
        complete uploads md5 parseSession finish t uploadId parts) := by
  have hout := uploadPart_outcome uploads md5 t uploadId n body maxPartSize
  intro after
  rcases failed_part_outcome uploads md5 hout hfail with ⟨hsame,hcond⟩ | ⟨hgone,hn,hsame⟩
  · have hafter : after = t := hsame
    rw [hafter]
    exact ⟨⟨fun _ => hcond,fun _ _ => rfl⟩,fun _ => ⟨rfl,fun _ => rfl⟩⟩
  · have hkept (hcond : ¬ (1 ≤ n ∧ n ≤ maxPartNumber) ∨ stagedPart uploads t uploadId n = none) :
        after = t := hcond.elim (fun hbad => absurd hn hbad) hsame
    refine ⟨⟨?_,?_⟩,?_⟩
    · intro hparts
      exact Or.inr ((hparts n).symm.trans hgone)
    · intro hcond m
      rw [hkept hcond]
    · intro hcond
      rw [hkept hcond]
      exact ⟨rfl,fun _ => rfl⟩

end

def smallTree (id : UploadId) : Tree :=
  (((((Dict.empty.set [] .dir).set ["data".toList] .dir).set
    ["data".toList, "objects".toList] .dir).set
    ["data".toList, "objects".toList, "blob".toList] (.file [7])).set
    ["data".toList, "uploads".toList] .dir).set
    ["data".toList, "uploads".toList, id.text] .dir

def smallId : UploadId := ⟨"0b8a5a6e-53c1-4b0e-9d0f-3f6a5b1c2d3e".toList,by decide⟩

/-- Aborting the upload id `..` deletes the blobs of the store. -/
theorem abort_dotdot_not_confined :
    (abort ["data".toList, "uploads".toList] (smallTree smallId) "..".toList).result = .ok () ∧
    (abort ["data".toList, "uploads".toList] (smallTree smallId) "..".toList).tree.contains
      ["data".toList, "objects".toList, "blob".toList] = false ∧
    ¬ Confined ["data".toList, "uploads".toList] [smallId]
      (abort ["data".toList, "uploads".toList] (smallTree smallId) "..".toList) := by
  refine ⟨by decide +kernel,by decide +kernel,?_⟩
  rintro (h | ⟨m,h⟩ | ⟨id,hid,hlog⟩)
  · exact absurd h (by decide +kernel)
  · have hok : (abort ["data".toList, "uploads".toList] (smallTree smallId) "..".toList).result =
        .ok () := by decide +kernel
    rw [hok] at h
    cases h
  · have hin := hlog (.delete ["data".toList, "objects".toList, "blob".toList]) (by decide +kernel)
    rw [mem_singleton.mp hid] at hin
    exact absurd hin (by decide +kernel)

/-- The session with the parts 1 and 2 staged. -/
def smallUpload : Tree :=
  (((smallTree smallId).set ["data".toList, "uploads".toList, smallId.text, sessionFile]
    (.file [])).set ["data".toList, "uploads".toList, smallId.text, partName 1]
    (.file [97, 98])).set ["data".toList, "uploads".toList, smallId.text, partName 2] (.file [99])

def smallSession : UploadSession := ⟨photosBucket,keyA,"text/plain".toList⟩

def smallMd5 (bytes : List ℕ) : Text :=
  [Char.ofNat (97+bytes.length), Char.ofNat (bytes.foldr Nat.add 0%128)]

/-- Part 3 was never staged: its broken upload leaves the parts 1 and 2 as they are. -/
theorem failed_upload_part_three :
    let uploads := ["data".toList, "uploads".toList]
    let retry := uploadPart uploads smallMd5 smallUpload smallId.text 3 ⟨[[97], [98]],true⟩ 2
    retry.result = .error .clientDisconnect ∧ ∀ m, stagedPart uploads retry.tree smallId.text m =
        stagedPart uploads smallUpload smallId.text m :=
  ⟨by decide +kernel,
    (failed_upload_part_keeps_parts_iff ["data".toList, "uploads".toList] smallMd5
      (fun _ => some smallSession) (fun _ _ _ t => (.ok (),t)) smallUpload smallId.text 3
      ⟨[[97], [98]],true⟩ 2 .clientDisconnect (by decide +kernel)).1.mpr
      (Or.inr (by decide +kernel))⟩

/-- Part 1 is sent again over the cap: it is no longer staged, and `complete` is refused. -/
theorem oversized_retry_drops_part :
    let uploads := ["data".toList, "uploads".toList]
    let retry := uploadPart uploads smallMd5 smallUpload smallId.text 1 ⟨[[97, 98, 99]],false⟩ 2
    let finish := fun t => (complete uploads smallMd5 (fun _ => some smallSession)
      (fun _ _ _ t => (.ok (),t)) t smallId.text [⟨1,smallMd5 [97, 98]⟩]).result
    stagedPart uploads smallUpload smallId.text 1 = some [97, 98] ∧
    retry.result = .error (.app .entityTooLarge) ∧
    stagedPart uploads retry.tree smallId.text 1 = none ∧
    finish smallUpload = .ok () ∧
    finish retry.tree = .error (.app (.invalidRequest "no staged part 1")) := by
  refine ⟨by decide +kernel,by decide +kernel,by decide +kernel,by decide +kernel,?_⟩
  decide +kernel

end BackendGauntlet.ObjectStore
