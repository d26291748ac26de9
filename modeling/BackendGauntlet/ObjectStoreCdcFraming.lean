import BackendGauntlet.ObjectStoreCdc

/-! The chunks of a body depend neither on its framing nor on what came before a boundary. -/
namespace BackendGauntlet.ObjectStore

open List

section
variable (gear : ℕ → ℕ)

theorem scanCut_append (mask fingerprint index : ℕ) (bytes more : Bytes) (cut : ℕ)
    (h : (scanCut gear mask fingerprint index bytes).2 = some cut) :
    scanCut gear mask fingerprint index (bytes ++ more) =
      scanCut gear mask fingerprint index bytes := by
  induction bytes generalizing fingerprint index with
  | nil => cases h
  | cons b bytes ih =>
    simp only [scanCut, cons_append] at h ⊢
    split_ifs at h ⊢ with hm
    · rfl
    · exact ih _ _ h

section
variable (settings : CdcSettings)

def cutOf (pending : Bytes) : ℕ :=
  cutPoint gear pending settings.minChunk settings.avgChunk settings.maxChunk

def cutWithin (data : Bytes) (limit : ℕ) : ℕ :=
  let normal := min settings.avgChunk limit
  match scanCut gear (maskFor settings.avgChunk true) 0 settings.minChunk
    ((data.take normal).drop settings.minChunk) with
  | (_,some cut) => cut
  | (fingerprint,none) =>
    let index := max settings.minChunk normal
    match scanCut gear (maskFor settings.avgChunk false) fingerprint index
      ((data.take limit).drop index) with
    | (_,some cut) => cut
    | (_,none) => limit

theorem cutOf_short {data : Bytes} (h : data.length ≤ settings.minChunk) :
    cutOf gear settings data = data.length := by
  rw [cutOf, cutPoint, if_pos h]

theorem cutOf_long {data : Bytes} (h : settings.minChunk < data.length) :
    cutOf gear settings data =
      cutWithin gear settings data (min data.length settings.maxChunk) := by
  rw [cutOf, cutPoint, if_neg (by omega)]
  rfl

theorem cutWithin_append_le {data more : Bytes} {limit : ℕ} (h : limit ≤ data.length) :
    cutWithin gear settings (data ++ more) limit = cutWithin gear settings data limit := by
  have hlimit : (data ++ more).take limit = data.take limit := take_append_of_le_length h
  have hnormal : (data ++ more).take (min settings.avgChunk limit) =
      data.take (min settings.avgChunk limit) := take_append_of_le_length (by omega)
  simp only [cutWithin, hlimit, hnormal]

theorem cutWithin_append_found (data more : Bytes) {limit : ℕ}
    (hlong : settings.minChunk < data.length) (hlimit : data.length ≤ limit)
    (hfound : cutWithin gear settings data data.length < data.length) :
    cutWithin gear settings (data ++ more) limit = cutWithin gear settings data data.length := by
  have htake (n : ℕ) (hn : data.length ≤ n) : (data ++ more).take n =
      data ++ more.take (n-data.length) := by
    rw [take_append, take_of_length_le hn]
  unfold cutWithin at hfound ⊢
  simp only [take_length] at hfound ⊢
  by_cases havg : settings.avgChunk ≤ data.length
  · -- the first scan is the same, the second one is longer
    have hn1 : min settings.avgChunk limit = settings.avgChunk := by omega
    have hn2 : min settings.avgChunk data.length = settings.avgChunk := by omega
    rw [hn1, take_append_of_le_length havg]
    rw [hn2] at hfound ⊢
    split
    · rfl
    · rename_i fingerprint hscan
      rw [hscan] at hfound
      simp only at hfound ⊢
      rw [htake limit hlimit, drop_append_of_le_length (by omega)]
      split at hfound
      · rename_i fingerprint' cut hcut
        rw [scanCut_append gear _ _ _ _ _ cut (congrArg Prod.snd hcut), hcut]
      · omega
  · -- the first scan reaches the end of the data
    have hn2 : min settings.avgChunk data.length = data.length := by omega
    rw [hn2] at hfound ⊢
    simp only [take_length] at hfound ⊢
    rw [htake (min settings.avgChunk limit) (by omega), drop_append_of_le_length (by omega)]
    split at hfound
    · rename_i fingerprint cut hcut
      rw [scanCut_append gear _ _ _ _ _ cut (congrArg Prod.snd hcut), hcut]
    · rename_i fingerprint hscan
      have hmax : max settings.minChunk data.length = data.length := by omega
      rw [hmax, drop_length] at hfound
      simp [scanCut] at hfound

theorem drainLoop_succ (fuel : ℕ) (pending : Bytes) (hp : pending ≠ []) :
    (drainLoop gear settings true (fuel+1) pending).1 =
      pending.take (cutOf gear settings pending) ::
        (drainLoop gear settings true fuel (pending.drop (cutOf gear settings pending))).1 := by
  have hlen : pending.length ≠ 0 := by simpa using hp
  simp [drainLoop, cutOf, hlen]

theorem drainLoop_nil (eof : Bool) (fuel : ℕ) :
    drainLoop gear settings eof fuel [] = ([],[]) := by
  cases fuel with
  | zero => rfl
  | succ fuel => simp [drainLoop]

section
variable (hvalid : settings.validate = .ok ())

include hvalid

/-- What `_drain` takes for a boundary stays one, whatever arrives later. -/
theorem cutOf_append (pending more : Bytes)
    (h : cutOf gear settings pending < pending.length ∨ settings.maxChunk ≤ pending.length) :
    cutOf gear settings (pending ++ more) = cutOf gear settings pending := by
  have hband := validate_band hvalid
  by_cases hshort : pending.length ≤ settings.minChunk
  · -- only a band of one size can have filled the buffer
    rw [cutOf_short gear settings hshort] at h ⊢
    by_cases hmore : more = []
    · rw [hmore, append_nil, cutOf_short gear settings hshort]
    · have hpos := length_pos_of_ne_nil hmore
      have hlen : (pending ++ more).length = pending.length+more.length := length_append
      rw [cutOf_long gear settings (by omega), cutWithin_append_le gear settings (by omega)]
      have hlimit : min (pending ++ more).length settings.maxChunk = pending.length := by omega
      have hnormal : min settings.avgChunk pending.length = pending.length := by omega
      have hmin : settings.minChunk = pending.length := by omega
      rw [hlimit]
      simp [cutWithin, hnormal, hmin, scanCut]
  · have hlen : (pending ++ more).length = pending.length+more.length := length_append
    rw [cutOf_long gear settings (by omega)] at h ⊢
    rw [cutOf_long gear settings (by omega)]
    by_cases hfull : settings.maxChunk ≤ pending.length
    · -- both scans stop at the maximal size, inside the buffer
      have h1 : min (pending ++ more).length settings.maxChunk = settings.maxChunk := by omega
      have h2 : min pending.length settings.maxChunk = settings.maxChunk := by omega
      rw [h1, h2, cutWithin_append_le gear settings hfull]
    · have h2 : min pending.length settings.maxChunk = pending.length := by omega
      rw [h2] at h ⊢
      exact cutWithin_append_found gear settings pending more (by omega) (by omega) (by omega)

variable (pending : Bytes)

theorem cutOf_bounds (hp : pending ≠ []) :
    0 < cutOf gear settings pending ∧ cutOf gear settings pending ≤ pending.length ∧
      cutOf gear settings pending ≤ settings.maxChunk ∧
      (cutOf gear settings pending < pending.length →
        settings.minChunk ≤ cutOf gear settings pending) := by
  have hband := validate_band hvalid
  have hpos : 0 < cutOf gear settings pending :=
    cutPoint_pos gear settings (by omega) (by omega) hp
  have hb : min settings.minChunk pending.length ≤ cutOf gear settings pending ∧
      cutOf gear settings pending ≤ pending.length ∧
      cutOf gear settings pending ≤ settings.maxChunk :=
    cutPoint_bounds gear pending _ _ _ (by omega)
  omega

theorem drainLoop_fuel (fuel fuel' : ℕ) (pending : Bytes) (h : pending.length ≤ fuel)
    (h' : pending.length ≤ fuel') :
    (drainLoop gear settings true fuel pending).1 =
      (drainLoop gear settings true fuel' pending).1 := by
  induction fuel generalizing fuel' pending with
  | zero =>
    have hnil : pending = [] := length_eq_zero_iff.mp (Nat.le_zero.mp h)
    rw [hnil, drainLoop_nil gear settings, drainLoop_nil gear settings]
  | succ fuel ih =>
    by_cases hp : pending = []
    · rw [hp, drainLoop_nil gear settings, drainLoop_nil gear settings]
    · have hpos := length_pos_of_ne_nil hp
      obtain ⟨hcut,_⟩ := cutOf_bounds gear settings hvalid pending hp
      obtain ⟨n,rfl⟩ : ∃ n, fuel' = n+1 := ⟨fuel'-1,by omega⟩
      rw [drainLoop_succ gear settings fuel pending hp, drainLoop_succ gear settings n pending hp,
        ih n _ (by rw [length_drop]; omega) (by rw [length_drop]; omega)]

theorem drain_cut (hp : pending ≠ []) :
    (drain gear settings true pending).1 = pending.take (cutOf gear settings pending) ::
      (drain gear settings true (pending.drop (cutOf gear settings pending))).1 := by
  have hpos := length_pos_of_ne_nil hp
  obtain ⟨hcut,_⟩ := cutOf_bounds gear settings hvalid pending hp
  obtain ⟨n,hn⟩ : ∃ n, pending.length = n+1 := ⟨pending.length-1,by omega⟩
  rw [drain, hn, drainLoop_succ gear settings n pending hp, drain,
    drainLoop_fuel gear settings hvalid n _ _ (by rw [length_drop]; omega) (Nat.le_refl _)]

variable {settings}

/-- What is cut while frames arrive are the first chunks of the whole body, and the buffer is
where they end. -/
theorem drainLoop_append (fuel : ℕ) (pending more : Bytes) :
    (drain gear settings true (pending ++ more)).1 =
      (drainLoop gear settings false fuel pending).1 ++
        (drain gear settings true ((drainLoop gear settings false fuel pending).2 ++ more)).1 := by
  induction fuel generalizing pending with
  | zero => rfl
  | succ fuel ih =>
    unfold drainLoop
    split_ifs with hwait
    · rfl
    · simp only
      split_ifs with hheld
      -- the cut only ran out of bytes: the buffer waits for more
      · rfl
      · have hne : pending ≠ [] := by
          intro hnil
          exact hwait (Or.inl (by rw [hnil, length_nil]))
        obtain ⟨_,hle,_⟩ := cutOf_bounds gear settings hvalid pending hne
        -- the buffer was not held back, so its cut is the cut of the whole body
        have hcut : cutOf gear settings (pending ++ more) = cutOf gear settings pending := by
          apply cutOf_append gear settings hvalid
          by_contra hn
          rw [not_or, Nat.not_lt, Nat.not_le] at hn
          exact hheld ⟨hn.1,trivial,hn.2⟩
        rw [drain_cut gear settings hvalid (pending ++ more) (by simp [hne]), hcut,
          take_append_of_le_length hle, drop_append_of_le_length hle, ih]
        rfl

theorem chunkFrames_eq (frames : List Bytes) :
    chunkFrames gear settings pending frames =
      (drain gear settings true (pending ++ frames.flatten)).1 := by
  induction frames generalizing pending with
  | nil => rw [chunkFrames, flatten_nil, append_nil]
  | cons data frames ih =>
    unfold chunkFrames
    by_cases hdata : data = []
    · rw [if_pos hdata, ih, hdata, flatten_cons, nil_append]
    · rw [if_neg hdata]
      simp only
      rw [ih, flatten_cons, ← append_assoc, drainLoop_append gear hvalid
        (pending ++ data).length (pending ++ data) frames.flatten]
      rfl

theorem cdcChunks_eq (frames : List Bytes) :
    cdcChunks gear settings frames = .ok (drain gear settings true frames.flatten).1 := by
  rw [cdcChunks, hvalid, chunkFrames_eq gear hvalid, nil_append]
  rfl

theorem drain_sizes (n : ℕ) (pending : Bytes) (hn : pending.length ≤ n) :
    (∀ chunk ∈ (drain gear settings true pending).1, chunk.length ≤ settings.maxChunk) ∧
      ∀ chunk ∈ (drain gear settings true pending).1.dropLast,
        settings.minChunk ≤ chunk.length := by
  induction n generalizing pending with
  | zero =>
    have hnil : pending = [] := length_eq_zero_iff.mp (Nat.le_zero.mp hn)
    rw [hnil, drain, drainLoop_nil gear settings]
    simp
  | succ n ih =>
    by_cases hp : pending = []
    · rw [hp, drain, drainLoop_nil gear settings]
      simp
    · obtain ⟨hpos,hle,hmax,hmin⟩ := cutOf_bounds gear settings hvalid pending hp
      obtain ⟨hrest,hrestMin⟩ := ih (pending.drop (cutOf gear settings pending))
        (by rw [length_drop]; omega)
      have hlen : (pending.take (cutOf gear settings pending)).length =
          cutOf gear settings pending := by
        rw [length_take]
        omega
      rw [drain_cut gear settings hvalid pending hp]
      constructor
      · intro chunk hchunk
        rcases mem_cons.mp hchunk with rfl | hchunk
        · omega
        · exact hrest chunk hchunk
      · by_cases hend : pending.drop (cutOf gear settings pending) = []
        · rw [hend, drain, drainLoop_nil gear settings]
          simp
        · -- bytes remain, so the cut is not the end of the buffer
          have hlt : cutOf gear settings pending < pending.length := by
            have := length_pos_of_ne_nil hend
            rw [length_drop] at this
            omega
          have hne : (drain gear settings true
              (pending.drop (cutOf gear settings pending))).1 ≠ [] := by
            rw [drain_cut gear settings hvalid _ hend]
            simp
          rw [dropLast_cons_of_ne_nil hne]
          intro chunk hchunk
          rcases mem_cons.mp hchunk with rfl | hchunk
          · rw [hlen]
            exact hmin hlt
          · exact hrestMin chunk hchunk

end

end

/-- The chunks of a body depend on its bytes alone, put it together again, and keep to the band
of the settings. -/
theorem cdc_framing_independent (settings : CdcSettings) (hvalid : settings.validate = .ok ())
    (data : Bytes) (frames : List Bytes) (hdata : frames.flatten = data) :
    ∃ chunks, cdcChunks gear settings frames = .ok chunks ∧
      cdcChunks gear settings [data] = .ok chunks ∧
      chunks.flatten = data ∧
      (∀ chunk ∈ chunks, chunk ≠ [] ∧ chunk.length ≤ settings.maxChunk) ∧
      ∀ chunk ∈ chunks.dropLast, settings.minChunk ≤ chunk.length := by
  have hchunks (fs : List Bytes) (hfs : fs.flatten = data) :
      cdcChunks gear settings fs = .ok (drain gear settings true data).1 := by
    rw [cdcChunks_eq gear hvalid, hfs]
  obtain ⟨hflat,hne⟩ := cdcChunks_spec gear (hchunks frames hdata)
  obtain ⟨hmax,hmin⟩ := drain_sizes gear hvalid data.length data (Nat.le_refl _)
  refine ⟨_,hchunks frames hdata,hchunks [data] (by simp),hflat.trans hdata,?_,hmin⟩
  intro chunk hchunk
  exact ⟨hne chunk hchunk,hmax chunk hchunk⟩

end

/-- A chunk that the hash with `gear b = 256*b` ends: bit 8 of the fingerprint is clear only after
an even byte, and three bytes do not reach the next bit of the mask. -/
def marked (b : ℕ) : Bytes := replicate 64 b ++ [1, 1, 0]

/-- Three frames, one of them empty, and the mark within the third. -/
theorem cdc_framing_three :
    cutOf (256*·) ⟨64,80,96⟩ (marked 7 ++ List.replicate 80 9) = 67 ∧
    ∃ chunks, cdcChunks (256*·) ⟨64,80,96⟩
        [(marked 7).take 50, [], (marked 7).drop 50 ++ List.replicate 80 9] = .ok chunks ∧
      cdcChunks (256*·) ⟨64,80,96⟩ [marked 7 ++ List.replicate 80 9] = .ok chunks ∧
      chunks.flatten = marked 7 ++ List.replicate 80 9 ∧
      (∀ chunk ∈ chunks, chunk ≠ [] ∧ chunk.length ≤ 96) ∧
      ∀ chunk ∈ chunks.dropLast, 64 ≤ chunk.length :=
  ⟨by decide +kernel,cdc_framing_independent (256*·) ⟨64,80,96⟩ rfl _
    [(marked 7).take 50, [], (marked 7).drop 50 ++ replicate 80 9] rfl⟩

def BoundaryAt (chunks : List Bytes) (length count : ℕ) : Prop :=
  (chunks.take count).flatten.length = length

section
variable (gear : ℕ → ℕ) (settings : CdcSettings) (hvalid : settings.validate = .ok ())
include hvalid

theorem drain_resync {before after : Bytes} {count : ℕ}
    (h : BoundaryAt (drain gear settings true (before ++ after)).1 before.length count) :
    (drain gear settings true (before ++ after)).1.drop count =
      (drain gear settings true after).1 := by
  induction count generalizing before with
  | zero =>
    have hnil : before = [] := length_eq_zero_iff.mp h.symm
    rw [hnil, nil_append, drop_zero]
  | succ count ih =>
    by_cases hp : before ++ after = []
    · obtain ⟨rfl,rfl⟩ := append_eq_nil_iff.mp hp
      rw [append_nil, drain, drainLoop_nil gear settings, drop_nil]
    · obtain ⟨hpos,hle,_⟩ := cutOf_bounds gear settings hvalid (before ++ after) hp
      have hcut := drain_cut gear settings hvalid (before ++ after) hp
      rw [BoundaryAt, hcut, take_succ_cons, flatten_cons, length_append, length_take_of_le hle] at h
      -- the first chunk ends inside what comes before the boundary
      have hin : cutOf gear settings (before ++ after) ≤ before.length := by omega
      rw [drop_append_of_le_length hin] at h hcut
      rw [hcut, drop_succ_cons]
      apply ih
      rw [BoundaryAt, length_drop]
      omega

end

/-- Two bodies that end in the same bytes, and are both cut where these begin, have the same chunks
from there on. -/
theorem cdc_resynchronises (gear : ℕ → ℕ) (settings : CdcSettings)
    (hvalid : settings.validate = .ok ()) (p q s : Bytes) (pFrames qFrames sFrames : List Bytes)
    (hp : pFrames.flatten = p ++ s) (hq : qFrames.flatten = q ++ s) (hs : sFrames.flatten = s) :
    ∃ pChunks qChunks sChunks, cdcChunks gear settings pFrames = .ok pChunks ∧
      cdcChunks gear settings qFrames = .ok qChunks ∧
      cdcChunks gear settings sFrames = .ok sChunks ∧
      (∀ i j, BoundaryAt pChunks p.length i → BoundaryAt qChunks q.length j →
        pChunks.drop i = sChunks ∧ qChunks.drop j = sChunks) ∧
      ∀ u w, s = u ++ w → ∀ i j, BoundaryAt pChunks (p ++ u).length i →
        BoundaryAt qChunks (q ++ u).length j → pChunks.drop i = qChunks.drop j := by
  refine ⟨_,_,_,cdcChunks_eq gear hvalid pFrames,
    cdcChunks_eq gear hvalid qFrames,cdcChunks_eq gear hvalid sFrames,?_,?_⟩
  · rw [hp, hq, hs]
    intro i j hi hj
    exact ⟨drain_resync gear settings hvalid hi,drain_resync gear settings hvalid hj⟩
  · rintro u w rfl i j
    rw [hp, hq, ← append_assoc, ← append_assoc]
    intro hi hj
    rw [drain_resync gear settings hvalid hi, drain_resync gear settings hvalid hj]

/-- One marked chunk, and two others, before the same 70 bytes. -/
theorem cdc_resynchronises_repeated :
    ∃ pChunks qChunks sChunks,
      cdcChunks (256*·) ⟨64,80,96⟩ [marked 7 ++ List.replicate 70 9] = .ok pChunks ∧
      cdcChunks (256*·) ⟨64,80,96⟩ [marked 8 ++ marked 5 ++ List.replicate 70 9] = .ok qChunks ∧
      cdcChunks (256*·) ⟨64,80,96⟩ [List.replicate 70 9] = .ok sChunks ∧
      pChunks.drop 1 = sChunks ∧ qChunks.drop 2 = sChunks := by
  obtain ⟨pChunks,qChunks,sChunks,hp,hq,hs,hsync,_⟩ :=
    cdc_resynchronises (256*·) ⟨64,80,96⟩ rfl (marked 7) (marked 8 ++ marked 5) (replicate 70 9)
      [marked 7 ++ replicate 70 9] [marked 8 ++ marked 5 ++ replicate 70 9] [replicate 70 9]
      (by simp) (by simp) (by simp)
  refine ⟨pChunks,qChunks,sChunks,hp,hq,hs,hsync 1 2 ?_ ?_⟩
  · have hchunks : cdcChunks (256*·) ⟨64,80,96⟩ [marked 7 ++ replicate 70 9] =
        .ok [marked 7, replicate 70 9] := by decide +kernel
    cases Except.ok.inj (hp.symm.trans hchunks)
    simp [BoundaryAt]
  · have hchunks : cdcChunks (256*·) ⟨64,80,96⟩ [marked 8 ++ marked 5 ++ replicate 70 9] =
        .ok [marked 8, marked 5, replicate 70 9] := by decide +kernel
    cases Except.ok.inj (hq.symm.trans hchunks)
    simp [BoundaryAt]

end BackendGauntlet.ObjectStore
