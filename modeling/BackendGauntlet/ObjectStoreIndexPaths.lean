import BackendGauntlet.Json
import BackendGauntlet.ObjectStoreNaming
import BackendGauntlet.Percent
import BackendGauntlet.Posix

/-! The file of a row in the index: its key, percent-encoded into one path component. -/
namespace BackendGauntlet.ObjectStore

open PyText Posix Percent List Option

def unreserved : Text :=
  "abcdefghijklmnopqrstuvwxyzABCDEFGHIJKLMNOPQRSTUVWXYZ0123456789-_.~".toList

def encodeByte (byte : ℕ) : Text :=
  let char := Char.ofNat byte
  if unreserved.contains char then [char]
  else ['%', Json.hexDigit (byte/16), Json.hexDigit (byte%16)]

def encodeKey (key : Text) : Text := (Utf8.encode key).flatMap encodeByte

def indexFile (key : Text) : Text := encodeKey key ++ ".json".toList

def indexRoot (root : Place) : Place := join root "index".toList

def bucketDir (root : Place) (bucket : Bucket) : Place := join (indexRoot root) bucket.text

def objectsDir (root : Place) (bucket : Bucket) : Place :=
  join (bucketDir root bucket) "objects".toList

def indexPath (root : Place) (bucket : Bucket) (key : Key) : Place :=
  join (objectsDir root bucket) (indexFile key.text)

theorem unreserved_ascii : ∀ c ∈ unreserved, c.toNat < 128 ∧ c ≠ '%' ∧ c ≠ '/' ∧ c ≠ '\\' := by
  have h : unreserved.all (fun c => c.toNat < 128 ∧ c ≠ '%' ∧ c ≠ '/' ∧ c ≠ '\\') = true := by
    decide +kernel
  exact fun c hc => of_decide_eq_true (List.all_eq_true.mp h c hc)

theorem hexDigit_spec : ∀ n < 16,
    hexValue (Json.hexDigit n) = some n ∧ Json.hexDigit n ∈ unreserved := by
  decide

theorem readsBack_encodeByte : ReadsBack encodeByte := by
  intro b hb acc s
  unfold encodeByte
  simp only [contains_eq_mem, decide_eq_true_eq]
  split_ifs with h
  · obtain ⟨hlt,hne,_⟩ := unreserved_ascii _ h
    rw [cons_append, nil_append, unquoteRun_ascii acc hne hlt, octet_toNat b hb]
  · apply unquoteRun_hexPair
    simp only [hexPair, (hexDigit_spec (b/16) (by omega)).1,
      (hexDigit_spec (b%16) (by omega)).1, some.injEq]
    omega

/-- Reading the escapes back gives the key, so no two keys share an encoding. -/
theorem encodeKey_injective {k₁ k₂ : Text} (h : encodeKey k₁ = encodeKey k₂) : k₁ = k₂ := by
  calc k₁ = unquote (encodeKey k₁) := (readsBack_encodeByte.unquote k₁).symm
    _ = unquote (encodeKey k₂) := by rw [h]
    _ = k₂ := readsBack_encodeByte.unquote k₂

theorem mem_encodeKey {key : Text} {c : Char} (hc : c ∈ encodeKey key) :
    c ∈ unreserved ∨ c = '%' := by
  obtain ⟨b,hb,hc⟩ := mem_flatMap.mp hc
  have hlt := octet_lt hb
  unfold encodeByte at hc
  simp only [contains_eq_mem, decide_eq_true_eq] at hc
  split_ifs at hc with h
  · rw [mem_singleton.mp hc]
    exact Or.inl h
  · simp only [mem_cons, not_mem_nil, or_false] at hc
    rcases hc with hc | hc | hc
    · exact Or.inr hc
    · exact Or.inl (hc ▸ (hexDigit_spec _ (by omega)).2)
    · exact Or.inl (hc ▸ (hexDigit_spec _ (by omega)).2)

theorem not_mem_encodeKey (key : Text) {c : Char} (hu : c ∉ unreserved) (hc : c ≠ '%') :
    c ∉ encodeKey key := by
  intro h
  rcases mem_encodeKey h with h | h
  · exact hu h
  · exact hc h

theorem indexFile_component (key : Text) :
    '/' ∉ indexFile key ∧ indexFile key ≠ [] ∧ indexFile key ≠ ['.'] ∧ indexFile key ≠ dotdot := by
  have hlen : 5 ≤ (indexFile key).length := by simp [indexFile]
  -- what ends in `.json` is too long to be one of the special components
  have hne (s : Text) (hs : s.length < 5) : indexFile key ≠ s := by
    intro h
    rw [h] at hlen
    omega
  refine ⟨?_,hne _ (by decide),hne _ (by decide),hne _ (by decide)⟩
  intro h
  rcases mem_append.mp h with h | h
  · exact not_mem_encodeKey key (by decide +kernel) (by decide) h
  · exact absurd h (by decide)

theorem indexPath_eq (root : Place) (bucket : Bucket) (key : Key) :
    indexPath root bucket key = objectsDir root bucket ++ [indexFile key.text] := by
  obtain ⟨hslash,hne,hdot,_⟩ := indexFile_component key.text
  have hhead : (indexFile key.text).head? ≠ some '/' :=
    fun h => hslash (mem_of_mem_head? h)
  rw [indexPath, Posix.join, if_neg hhead, components, splitChar_none '/' _ hslash]
  simp [hne, hdot]

/-- The encoding of keys is injective and leaves no way out of a directory: whatever the tree
holds, the file of a row is found directly inside `objects/`, and distinct keys have distinct
files. -/
theorem index_files_distinct :
    (∀ k₁ k₂ : Text, encodeKey k₁ = encodeKey k₂ → k₁ = k₂) ∧
    (∀ key, (∀ c ∈ encodeKey key, (c ∈ unreserved ∨ c = '%') ∧ c.toNat < 128) ∧
      '/' ∉ encodeKey key ∧ '\\' ∉ encodeKey key ∧
      indexFile key ≠ ['.'] ∧ indexFile key ≠ dotdot) ∧
    ∀ (root : Place) (bucket : Bucket) (key : Key),
      indexPath root bucket key = objectsDir root bucket ++ [indexFile key.text] ∧
      (∀ (t : Tree) (p : Place), locate t (indexPath root bucket key) = some p →
        ∃ dir, locateDir t (objectsDir root bucket) = some dir ∧
          p = dir ++ [indexFile key.text]) ∧
      ∀ other, other ≠ key → indexFile other.text ≠ indexFile key.text ∧
        lexical [] (indexPath root bucket other) ≠ lexical [] (indexPath root bucket key) := by
  refine ⟨fun _ _ => encodeKey_injective,?_,?_⟩
  · intro key
    obtain ⟨_,_,hdot,hdots⟩ := indexFile_component key
    refine ⟨?_,not_mem_encodeKey key (by decide +kernel) (by decide),
      not_mem_encodeKey key (by decide +kernel) (by decide),hdot,hdots⟩
    intro c hc
    refine ⟨mem_encodeKey hc,?_⟩
    rcases mem_encodeKey hc with h | rfl
    · exact (unreserved_ascii c h).1
    · decide
  · intro root bucket key
    refine ⟨indexPath_eq root bucket key,?_,?_⟩
    · intro t p hp
      rw [indexPath_eq, locate_snoc t _ _ (indexFile_component key.text).2.2.2] at hp
      obtain ⟨dir,hdir,hin⟩ := bind_eq_some_iff.mp hp
      split_ifs at hin
      exact ⟨dir,hdir,(some.inj hin).symm⟩
    · intro other hne
      have hfile : indexFile other.text ≠ indexFile key.text := by
        intro h
        have hkey := encodeKey_injective (append_cancel_right h)
        cases other
        cases key
        exact hne (by congr)
      refine ⟨hfile,?_⟩
      rw [indexPath_eq, indexPath_eq, lexical_snoc _ _ (indexFile_component _).2.2.2,
        lexical_snoc _ _ (indexFile_component _).2.2.2]
      intro h
      exact hfile (by simpa using h)

end BackendGauntlet.ObjectStore
