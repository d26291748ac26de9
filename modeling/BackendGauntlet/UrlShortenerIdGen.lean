import Mathlib.Data.Nat.Bitwise
import BackendGauntlet.PyText

/-! Snowflake ids. The clock is a list of readings, consumed by the loops of each call. -/
namespace BackendGauntlet.UrlShortener

open PyText Option

def nodeIdBits : ℕ := 10

def sequenceBits : ℕ := 12

def maxNodeId : ℕ := 1 <<< nodeIdBits

def maxSequence : ℕ := 1 <<< sequenceBits

def sequenceMask : ℕ := maxSequence-1

def nodeIdMask : ℕ := maxNodeId-1

def timestampShift : ℕ := nodeIdBits+sequenceBits

structure IdParts where
  timestampMs : ℕ
  nodeId : ℕ
  sequence : ℕ
deriving DecidableEq

def assembleId (timestampMs sequence nodeId : ℕ) : ℕ :=
  timestampMs <<< timestampShift ||| nodeId <<< sequenceBits ||| sequence

def decode (id : ℕ) : IdParts :=
  { timestampMs := id >>> timestampShift,
    nodeId := (id >>> sequenceBits) &&& nodeIdMask,
    sequence := id &&& sequenceMask }

theorem maxSequence_pos : 0 < maxSequence := by decide

/-- The bounds are those of the constructor's check and of the exhaustion test. -/
structure IdGenerator where
  nodeId : ℕ
  lastTimestamp : ℕ
  sequence : ℕ
  nodeId_lt : nodeId < maxNodeId
  sequence_lt : sequence < maxSequence
deriving DecidableEq

def IdGenerator.new (nodeId : ℤ) : Except Text IdGenerator :=
  if h : 0 ≤ nodeId ∧ nodeId < maxNodeId then
    .ok { nodeId := nodeId.toNat, lastTimestamp := 0, sequence := 0,
          nodeId_lt := by omega, sequence_lt := maxSequence_pos }
  else .error "node_id must fit in 10 bits (0..1023)".toList

/-- `while stale(timestamp): timestamp = clock()`. -/
def waitWhile (stale : ℕ → Bool) (timestamp : ℕ) : List ℕ → Option (ℕ × List ℕ)
  | [] => if stale timestamp then none else some (timestamp,[])
  | r :: readings =>
    if stale timestamp then waitWhile stale r readings else some (timestamp,r :: readings)

def IdGenerator.at (g : IdGenerator) (timestamp sequence : ℕ) (h : sequence < maxSequence) :
    IdGenerator :=
  { g with lastTimestamp := timestamp, sequence := sequence, sequence_lt := h }

def IdGenerator.lastId (g : IdGenerator) : ℕ := assembleId g.lastTimestamp g.sequence g.nodeId

def IdGenerator.advance (g : IdGenerator) : List ℕ → Option (IdGenerator × List ℕ)
  | [] => none
  | r :: readings => do
    let (timestamp,readings) ← waitWhile (fun t => t < g.lastTimestamp) r readings
    if timestamp = g.lastTimestamp then
      if h : g.sequence+1 < maxSequence then
        some (g.at timestamp (g.sequence+1) h,readings)
      else
        let (timestamp,readings) ← waitWhile (fun t => t ≤ g.lastTimestamp) timestamp readings
        some (g.at timestamp 0 (by decide),readings)
    else some (g.at timestamp 0 (by decide),readings)

def IdGenerator.nextId (g : IdGenerator) (readings : List ℕ) :
    Option (ℕ × IdGenerator × List ℕ) := do
  let (g,readings) ← g.advance readings
  some (g.lastId,g,readings)

theorem waitWhile_some (stale : ℕ → Bool) (timestamp : ℕ) (readings : List ℕ) (t : ℕ)
    (rest : List ℕ) (h : waitWhile stale timestamp readings = some (t,rest)) :
    stale t = false := by
  induction readings generalizing timestamp with
  | nil =>
    simp only [waitWhile] at h
    split_ifs at h with hs
    cases h
    exact Bool.of_not_eq_true hs
  | cons r readings ih =>
    simp only [waitWhile] at h
    split_ifs at h with hs
    · exact ih r h
    · cases h
      exact Bool.of_not_eq_true hs

def Later (g g' : IdGenerator) : Prop :=
  g'.nodeId = g.nodeId ∧ (g.lastTimestamp < g'.lastTimestamp ∨
    (g'.lastTimestamp = g.lastTimestamp ∧ g.sequence < g'.sequence))

theorem later_trans (g g' g'' : IdGenerator) (h : Later g g') (h' : Later g' g'') :
    Later g g'' := by
  obtain ⟨hn,h⟩ := h
  obtain ⟨hn',h'⟩ := h'
  refine ⟨hn'.trans hn,?_⟩
  omega

theorem advance_later {g g' : IdGenerator} {readings rest : List ℕ}
    (h : g.advance readings = some (g',rest)) : Later g g' := by
  cases readings with
  | nil => cases h
  | cons r readings =>
    simp only [IdGenerator.advance] at h
    obtain ⟨⟨timestamp,left⟩,hw,h⟩ := bind_eq_some_iff.mp h
    have hge := waitWhile_some _ _ _ _ _ hw
    simp only [decide_eq_false_iff_not, not_lt] at hge
    split_ifs at h with heq hseq
    · -- the same millisecond: the next number
      cases h
      exact ⟨rfl,Or.inr ⟨heq,Nat.lt_succ_self _⟩⟩
    · -- the millisecond is spent: the second loop ends at a later one
      obtain ⟨⟨timestamp',left'⟩,hw',h⟩ := bind_eq_some_iff.mp h
      have hgt := waitWhile_some _ _ _ _ _ hw'
      simp only [decide_eq_false_iff_not, not_le] at hgt
      cases h
      exact ⟨rfl,Or.inl hgt⟩
    · -- a later millisecond: the first loop has ruled out an earlier one
      cases h
      exact ⟨rfl,Or.inl (Nat.lt_of_le_of_ne hge (Ne.symm heq))⟩

variable (g g' : IdGenerator)

theorem nextId_some (readings rest : List ℕ) (id : ℕ)
    (h : g.nextId readings = some (id,g',rest)) : id = g'.lastId ∧ Later g g' := by
  obtain ⟨⟨g₁,rest₁⟩,hadv,h⟩ := bind_eq_some_iff.mp h
  cases h
  exact ⟨rfl,advance_later hadv⟩

theorem assembleId_eq (timestampMs : ℕ) {sequence nodeId : ℕ} (hs : sequence < maxSequence)
    (hn : nodeId < maxNodeId) :
    assembleId timestampMs sequence nodeId =
      timestampMs*4194304+nodeId*4096+sequence := by
  have hs : sequence < 2^12 := hs
  have hn : nodeId < 1024 := hn
  -- each field is below the lowest bit of the one above it, so `|||` adds
  have hlow : nodeId <<< 12 ||| sequence = nodeId*4096+sequence := by
    rw [← Nat.shiftLeft_add_eq_or_of_lt hs, Nat.shiftLeft_eq]
  have hlt : nodeId*4096+sequence < 2^22 := by omega
  change timestampMs <<< 22 ||| nodeId <<< 12 ||| sequence = _
  rw [Nat.or_assoc, hlow, ← Nat.shiftLeft_add_eq_or_of_lt hlt, Nat.shiftLeft_eq]
  omega

theorem decode_assembleId {timestampMs sequence nodeId : ℕ} (hs : sequence < maxSequence)
    (hn : nodeId < maxNodeId) :
    decode (assembleId timestampMs sequence nodeId) = ⟨timestampMs,nodeId,sequence⟩ := by
  rw [assembleId_eq timestampMs hs hn]
  have hs : sequence < 4096 := hs
  have hn : nodeId < 1024 := hn
  have hnode : nodeIdMask = 2^10-1 := rfl
  have hseq : sequenceMask = 2^12-1 := rfl
  simp only [decode, hnode, hseq, Nat.shiftRight_eq_div_pow, Nat.and_two_pow_sub_one_eq_mod,
    IdParts.mk.injEq, timestampShift, nodeIdBits, sequenceBits]
  omega

theorem lastId_lt {g g' : IdGenerator} (h : Later g g') : g.lastId < g'.lastId := by
  obtain ⟨hn,h⟩ := h
  have hs : g.sequence < 4096 := g.sequence_lt
  have hs' : g'.sequence < 4096 := g'.sequence_lt
  have hn' : g.nodeId < 1024 := g.nodeId_lt
  rw [IdGenerator.lastId, IdGenerator.lastId, hn,
    assembleId_eq _ g.sequence_lt g.nodeId_lt, assembleId_eq _ g'.sequence_lt g.nodeId_lt]
  omega

theorem decode_lastId (g : IdGenerator) :
    decode g.lastId = ⟨g.lastTimestamp,g.nodeId,g.sequence⟩ :=
  decode_assembleId g.sequence_lt g.nodeId_lt

def issue : ℕ → IdGenerator → List ℕ → Option (List (ℕ × IdGenerator))
  | 0, _, _ => some []
  | n+1, g, readings => do
    let (id,g,readings) ← g.nextId readings
    let calls ← issue n g readings
    some ((id,g) :: calls)

theorem issue_later (n : ℕ) (g : IdGenerator) (readings : List ℕ)
    (calls : List (ℕ × IdGenerator)) (h : issue n g readings = some calls) :
    (∀ c ∈ calls, c.1 = c.2.lastId ∧ Later g c.2) ∧
      calls.Pairwise (fun c d => Later c.2 d.2) := by
  induction n generalizing g readings calls with
  | zero =>
    cases h
    exact ⟨by simp,List.Pairwise.nil⟩
  | succ n ih =>
    obtain ⟨⟨id,g₁,rest⟩,hnext,h⟩ := bind_eq_some_iff.mp h
    obtain ⟨tail,htail,h⟩ := bind_eq_some_iff.mp h
    cases h
    obtain ⟨hid,hlater⟩ := nextId_some g g₁ readings rest id hnext
    obtain ⟨hall,hpair⟩ := ih g₁ rest tail htail
    -- the other calls start from the generator that the first one left
    refine ⟨?_,List.pairwise_cons.mpr ⟨fun c hc => (hall c hc).2,hpair⟩⟩
    intro c hc
    rcases List.mem_cons.mp hc with rfl | hc
    · exact ⟨hid,hlater⟩
    · exact ⟨(hall c hc).1,later_trans g g₁ c.2 hlater (hall c hc).2⟩

theorem new_nodeId {nodeId : ℤ} {g : IdGenerator} (h : IdGenerator.new nodeId = .ok g) :
    (g.nodeId : ℤ) = nodeId := by
  unfold IdGenerator.new at h
  split_ifs at h with hn
  cases Except.ok.inj h
  exact Int.toNat_of_nonneg hn.1

theorem lastId_ne (h : g.nodeId ≠ g'.nodeId) : g.lastId ≠ g'.lastId := by
  intro heq
  have hparts := congrArg decode heq
  rw [decode_lastId, decode_lastId] at hparts
  exact h (congrArg IdParts.nodeId hparts)

theorem lastId_lt_two_pow {g : IdGenerator} (h : g.lastTimestamp < 2^41) :
    g.lastId < 2^63 := by
  have hs : g.sequence < 4096 := g.sequence_lt
  have hn : g.nodeId < 1024 := g.nodeId_lt
  rw [IdGenerator.lastId, assembleId_eq _ g.sequence_lt g.nodeId_lt]
  omega

/-- The ids of a generator increase, no other node issues one, and each decodes to its parts. -/
theorem snowflake_ids (nodeId : ℤ) (g : IdGenerator) (hg : IdGenerator.new nodeId = .ok g)
    (n : ℕ) (readings : List ℕ) (calls : List (ℕ × IdGenerator))
    (hcalls : issue n g readings = some calls) :
    (calls.map Prod.fst).Pairwise (fun id id' => id < id') ∧
    (∀ nodeId' g' n' readings' calls', IdGenerator.new nodeId' = .ok g' → nodeId' ≠ nodeId →
      issue n' g' readings' = some calls' → ∀ c ∈ calls, ∀ c' ∈ calls', c.1 ≠ c'.1) ∧
    (∀ c ∈ calls, c.1 = assembleId c.2.lastTimestamp c.2.sequence g.nodeId ∧
      decode c.1 = ⟨c.2.lastTimestamp,g.nodeId,c.2.sequence⟩ ∧ c.2.sequence ≤ 4095 ∧
      (c.2.lastTimestamp < 2^41 → c.1 < 2^63)) ∧
    calls.Pairwise (fun c d => c.2.lastTimestamp ≤ d.2.lastTimestamp) := by
  obtain ⟨hall,hpair⟩ := issue_later n g readings calls hcalls
  refine ⟨?_,?_,?_,?_⟩
  · apply List.pairwise_map.mpr
    apply hpair.imp_of_mem
    intro c d hc hd hlater
    rw [(hall c hc).1, (hall d hd).1]
    exact lastId_lt hlater
  · intro nodeId' g' n' readings' calls' hg' hne hcalls' c hc c' hc'
    obtain ⟨hall',_⟩ := issue_later n' g' readings' calls' hcalls'
    rw [(hall c hc).1, (hall' c' hc').1]
    apply lastId_ne
    rw [(hall c hc).2.1, (hall' c' hc').2.1]
    intro heq
    apply hne
    rw [← new_nodeId hg, ← new_nodeId hg', heq]
  · intro c hc
    obtain ⟨hid,hnode,_⟩ := hall c hc
    have hseq : c.2.sequence < 4096 := c.2.sequence_lt
    rw [hid, decode_lastId, hnode]
    exact ⟨by rw [← hnode]; rfl,rfl,by omega,lastId_lt_two_pow⟩
  · apply hpair.imp
    intro c d hlater
    obtain ⟨_,hlater⟩ := hlater
    omega

/-- A clock that steps back twice: the second call repeats a millisecond, the third waits for
a later one. -/
theorem snowflake_ids_backward : ∃ g calls, IdGenerator.new 7 = .ok g ∧
    issue 3 g [5, 3, 5, 2, 6] = some calls ∧
    calls.map (fun c => (c.2.lastTimestamp,c.2.sequence)) = [(5,0), (5,1), (6,0)] ∧
    (calls.map Prod.fst).Pairwise (fun id id' => id < id') := by
  have hcalls : (issue 3 ⟨7,0,0,by decide,by decide⟩ [5, 3, 5, 2, 6]).map
      (fun calls => calls.map (fun c => (c.2.lastTimestamp,c.2.sequence))) =
      some [(5,0), (5,1), (6,0)] := by decide +kernel
  obtain ⟨calls,hissue,hmap⟩ := map_eq_some_iff.mp hcalls
  exact ⟨_,calls,rfl,hissue,hmap,(snowflake_ids 7 _ rfl 3 _ calls hissue).1⟩

end BackendGauntlet.UrlShortener
