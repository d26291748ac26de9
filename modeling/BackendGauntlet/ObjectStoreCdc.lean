import BackendGauntlet.ObjectStoreManifest

/-! Content-defined chunking: the cuts of a body and the manifest that names the chunks. -/
namespace BackendGauntlet.ObjectStore

open List

structure CdcSettings where
  minChunk : ℕ
  avgChunk : ℕ
  maxChunk : ℕ
deriving DecidableEq

def CdcSettings.validate (settings : CdcSettings) : Except AppError Unit :=
  if ¬ (settings.minChunk ≤ settings.avgChunk ∧ settings.avgChunk ≤ settings.maxChunk) then
    .error (.invalidRequest ("CDC requires min_chunk <= avg_chunk <= max_chunk, got min=" ++
      toString settings.minChunk ++ " avg=" ++ toString settings.avgChunk ++ " max=" ++
      toString settings.maxChunk))
  else if settings.minChunk < 64 then
    .error (.invalidRequest ("CDC min_chunk must be >= 64, got " ++ toString settings.minChunk))
  else .ok ()

theorem validate_band {settings : CdcSettings} (h : settings.validate = .ok ()) :
    64 ≤ settings.minChunk ∧ settings.minChunk ≤ settings.avgChunk ∧
      settings.avgChunk ≤ settings.maxChunk := by
  unfold CdcSettings.validate at h
  split_ifs at h with h1 h2
  omega

/-- The masks of the two phases, from `log2` of the target size 5 on. -/
def masks : List ℕ :=
  [0x0000000001804110, 0x0000000001803110, 0x0000000018035100, 0x0000001800035300,
   0x0000019000353000, 0x0000590003530000, 0x0000D90003530000, 0x0000D90103530000,
   0x0000D90303530000, 0x0000D90313530000, 0x0000D90F03530000, 0x0000D90303537000,
   0x0000D90703537000, 0x0000D90707537000, 0x0000D91707537000, 0x0000D91747537000,
   0x0000D91767537000, 0x0000D93767537000, 0x0000D93777537000, 0x0000D93777572000,
   0x0000DB3777572000]

def maskFor (size : ℕ) (strict : Bool) : ℕ :=
  let bits := Nat.log2 size
  let shifted := if strict then bits+1 else bits-1
  masks.getD (min (max shifted 5) 25-5) 0

section
variable (gear : ℕ → ℕ)

def scanCut (mask : ℕ) : ℕ → ℕ → Bytes → ℕ × Option ℕ
  | fingerprint, _, [] => (fingerprint,none)
  | fingerprint, index, b :: bytes =>
    let fingerprint := (fingerprint <<< 1+gear b) &&& 0xFFFFFFFFFFFFFFFF
    if fingerprint &&& mask = 0 then (fingerprint,some (index+1))
    else scanCut mask fingerprint (index+1) bytes

def cutPoint (data : Bytes) (minSize avgSize maxSize : ℕ) : ℕ :=
  if data.length ≤ minSize then data.length
  else
    let limit := min data.length maxSize
    let normal := min avgSize limit
    match scanCut gear (maskFor avgSize true) 0 minSize ((data.take normal).drop minSize) with
    | (_,some cut) => cut
    | (fingerprint,none) =>
      let index := max minSize normal
      match scanCut gear (maskFor avgSize false) fingerprint index
        ((data.take limit).drop index) with
      | (_,some cut) => cut
      | (_,none) => limit

theorem scanCut_bounds (mask fingerprint index : ℕ) (bytes : Bytes) (cut : ℕ)
    (h : (scanCut gear mask fingerprint index bytes).2 = some cut) :
    index < cut ∧ cut ≤ index+bytes.length := by
  induction bytes generalizing fingerprint index with
  | nil => cases h
  | cons b bytes ih =>
    simp only [scanCut] at h
    rw [length_cons]
    split_ifs at h with hm
    · have hc := Option.some.inj h
      omega
    · have hrest := ih _ _ h
      omega

theorem cutPoint_bounds (data : Bytes) (minSize avgSize maxSize : ℕ) (hmin : minSize ≤ maxSize) :
    min minSize data.length ≤ cutPoint gear data minSize avgSize maxSize ∧
      cutPoint gear data minSize avgSize maxSize ≤ data.length ∧
      cutPoint gear data minSize avgSize maxSize ≤ maxSize := by
  unfold cutPoint
  by_cases hlen : data.length ≤ minSize
  · rw [if_pos hlen]
    omega
  · rw [if_neg hlen]
    simp only
    split
    · next fingerprint cut hscan =>
      have hb := scanCut_bounds gear _ _ _ _ cut (congrArg Prod.snd hscan)
      simp only [length_drop, length_take] at hb
      omega
    · split
      · next fingerprint cut hscan =>
        have hb := scanCut_bounds gear _ _ _ _ cut (congrArg Prod.snd hscan)
        simp only [length_drop, length_take] at hb
        omega
      · omega

def drainLoop (settings : CdcSettings) (eof : Bool) : ℕ → Bytes → List Bytes × Bytes
  | 0, pending => ([],pending)
  | fuel+1, pending =>
    if pending.length = 0 ∨ (eof = false ∧ pending.length < settings.minChunk) then ([],pending)
    else
      let stop := cutPoint gear pending settings.minChunk settings.avgChunk settings.maxChunk
      -- a cut that consumed the whole buffer only ran out of bytes
      if pending.length ≤ stop ∧ eof = false ∧ pending.length < settings.maxChunk then
        ([],pending)
      else
        let rest := drainLoop settings eof fuel (pending.drop stop)
        (pending.take stop :: rest.1,rest.2)

def drain (settings : CdcSettings) (eof : Bool) (pending : Bytes) : List Bytes × Bytes :=
  drainLoop gear settings eof pending.length pending

def chunkFrames (settings : CdcSettings) : Bytes → List Bytes → List Bytes
  | pending, [] => (drain gear settings true pending).1
  | pending, data :: frames =>
    if data = [] then chunkFrames settings pending frames
    else
      let r := drain gear settings false (pending ++ data)
      r.1 ++ chunkFrames settings r.2 frames

def cdcChunks (settings : CdcSettings) (frames : List Bytes) : Except AppError (List Bytes) :=
  settings.validate.map (fun _ => chunkFrames gear settings [] frames)

section
variable (settings : CdcSettings) (hmin : 0 < settings.minChunk)
  (hmax : settings.minChunk ≤ settings.maxChunk)

include hmin hmax

theorem cutPoint_pos {pending : Bytes} (hp : pending ≠ []) :
    0 < cutPoint gear pending settings.minChunk settings.avgChunk settings.maxChunk := by
  have hb := (cutPoint_bounds gear pending settings.minChunk settings.avgChunk
    settings.maxChunk hmax).1
  have hlen := length_pos_of_ne_nil hp
  omega

theorem drainLoop_spec (eof : Bool) (fuel : ℕ) (pending : Bytes) :
    (drainLoop gear settings eof fuel pending).1.flatten ++
        (drainLoop gear settings eof fuel pending).2 = pending ∧
      ∀ chunk ∈ (drainLoop gear settings eof fuel pending).1, chunk ≠ [] := by
  induction fuel generalizing pending with
  | zero => simp [drainLoop]
  | succ fuel ih =>
    unfold drainLoop
    by_cases hstop : pending.length = 0 ∨ (eof = false ∧ pending.length < settings.minChunk)
    · rw [if_pos hstop]
      simp
    · rw [if_neg hstop]
      have hne : pending ≠ [] := by
        intro hnil
        exact hstop (Or.inl (by rw [hnil, length_nil]))
      have hcut := cutPoint_pos gear settings hmin hmax hne
      simp only
      split_ifs with hwait
      · simp
      · obtain ⟨hflat,hchunks⟩ := ih (pending.drop (cutPoint gear pending settings.minChunk
          settings.avgChunk settings.maxChunk))
        constructor
        · rw [flatten_cons, append_assoc, hflat, take_append_drop]
        · intro chunk hchunk
          rcases mem_cons.mp hchunk with rfl | hchunk
          · intro hnil
            rw [take_eq_nil_iff] at hnil
            rcases hnil with h0 | h0
            · omega
            · exact hne h0
          · exact hchunks chunk hchunk

theorem drainLoop_eof (fuel : ℕ) (pending : Bytes) (hfuel : pending.length ≤ fuel) :
    (drainLoop gear settings true fuel pending).2 = [] := by
  induction fuel generalizing pending with
  | zero => exact length_eq_zero_iff.mp (Nat.le_zero.mp hfuel)
  | succ fuel ih =>
    unfold drainLoop
    by_cases hne : pending = []
    · simp [hne]
    · have hcut := cutPoint_pos gear settings hmin hmax hne
      have hlen : pending.length ≠ 0 := by simpa using hne
      simp only [hlen, Bool.true_eq_false, false_and, or_self, and_false, if_false]
      apply ih
      rw [length_drop]
      omega

theorem chunkFrames_spec (pending : Bytes) (frames : List Bytes) :
    (chunkFrames gear settings pending frames).flatten = pending ++ frames.flatten ∧
      ∀ chunk ∈ chunkFrames gear settings pending frames, chunk ≠ [] := by
  induction frames generalizing pending with
  | nil =>
    have hempty := drainLoop_eof gear settings hmin hmax pending.length pending (Nat.le_refl _)
    obtain ⟨hflat,hchunks⟩ := drainLoop_spec gear settings hmin hmax true pending.length pending
    rw [hempty, append_nil] at hflat
    exact ⟨by rw [chunkFrames, drain, hflat, flatten_nil, append_nil],hchunks⟩
  | cons data frames ih =>
    unfold chunkFrames
    by_cases hdata : data = []
    · rw [if_pos hdata, hdata, flatten_cons, nil_append]
      exact ih pending
    · rw [if_neg hdata]
      obtain ⟨hflat,hchunks⟩ := drainLoop_spec gear settings hmin hmax false
        (pending ++ data).length (pending ++ data)
      obtain ⟨hrest,hrestChunks⟩ := ih (drain gear settings false (pending ++ data)).2
      constructor
      · rw [flatten_append, hrest, ← append_assoc, drain, hflat, flatten_cons, append_assoc]
      · intro chunk hchunk
        rcases mem_append.mp hchunk with hchunk | hchunk
        · exact hchunks chunk hchunk
        · exact hrestChunks chunk hchunk

end

/-- However a body is framed, its chunks are nonempty and put it together again. -/
theorem cdcChunks_spec {settings : CdcSettings} {frames chunks : List Bytes}
    (h : cdcChunks gear settings frames = .ok chunks) :
    chunks.flatten = frames.flatten ∧ ∀ chunk ∈ chunks, chunk ≠ [] := by
  unfold cdcChunks at h
  cases hv : settings.validate with
  | error e =>
    rw [hv] at h
    cases h
  | ok u =>
    rw [hv] at h
    have hband := validate_band hv
    have hchunks : chunkFrames gear settings [] frames = chunks := by
      simpa [Except.map] using h
    rw [← hchunks]
    exact chunkFrames_spec gear settings (by omega) (by omega) [] frames

end

def manifestOf (digestOf : Bytes → Digest) (chunks : List Bytes) : Manifest :=
  ⟨1,chunks.map (fun chunk => ⟨digestOf chunk,chunk.length⟩)⟩

end BackendGauntlet.ObjectStore
