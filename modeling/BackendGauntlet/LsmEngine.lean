import Mathlib.Algebra.Group.Nat.Defs
import BackendGauntlet.PyText
import BackendGauntlet.Transition

/-! What `Engine.open` of the LSM store rebuilds from the files it finds. -/
namespace BackendGauntlet.LsmRedis

open PyText Transition List

def lastDigits : ℕ → ℕ → Text
  | 0, _ => []
  | width+1, n => (n/10^width%10).digitChar :: lastDigits width n

/-- `f"{table_id:06d}.sst"`. -/
def sstName (id : ℕ) : Text :=
  (if id < 10^6 then lastDigits 6 id else Nat.toDigits 10 id) ++ ".sst".toList

structure Engine where
  sstables : List ℕ
  seq : ℕ
  nextSstableId : ℕ
deriving DecidableEq

def Engine.init (sstables : List ℕ) : Engine where
  sstables := sstables
  seq := sstables.max?.getD 0
  nextSstableId := sstables.max?.getD 0+1

/-- `Engine.open`. The records of the WAL go into the memtable only. -/
def openEngine (files : List ℕ) : Engine :=
  Engine.init (files.insertionSort (fun a b => leText (sstName a) (sstName b) = true)).reverse

def Engine.nextSeq (e : Engine) : ℕ × Engine := (e.seq+1,{ e with seq := e.seq+1 })

def Engine.allocate (e : Engine) : ℕ × Engine :=
  (e.nextSstableId,{ e with nextSstableId := e.nextSstableId+1 })

structure LsmState where
  files : List ℕ
  wal : List ℕ
  engine : Engine

inductive LsmAction
  | write
  | table
  | restart

def lsmStep (s : LsmState) : LsmAction → Option LsmState
  | .write => some { s with
      wal := s.wal ++ [s.engine.nextSeq.1]
      engine := s.engine.nextSeq.2 }
  | .table => some { s with
      files := s.files ++ [s.engine.allocate.1]
      engine := s.engine.allocate.2 }
  | .restart => some { s with engine := openEngine s.files }

/-- An open finds ids of six digits, and no logged number above all of them. -/
def recoverable (s : LsmState) : LsmAction → Bool
  | .restart =>
    s.files.all (fun id => id < 10^6) && s.wal.all (fun q => s.files.any (fun id => q ≤ id))
  | _ => true

def Opened (s : LsmState) : Prop :=
  s.files.Nodup ∧ s.engine = openEngine s.files ∧ recoverable s .restart = true

structure Recency (s : LsmState) : Prop where
  tables : s.engine.sstables.Pairwise (fun a b => b < a)
  ids : ∀ id ∈ s.files, id < s.engine.nextSstableId
  seqs : ∀ q ∈ s.wal, q < s.engine.nextSeq.1

theorem ltText_digit {x y : ℕ} {s t : Text} (hx : x < 10) (hy : y < 10) :
    ltText (x.digitChar :: s) (y.digitChar :: t) = true ↔ x < y ∨ x = y ∧ ltText s t = true := by
  have hdigit : ∀ n < 10, n.digitChar.toNat = n+48 := by decide
  have heq : x.digitChar = y.digitChar ↔ x = y := by
    rw [← Char.toNat_inj, hdigit x hx, hdigit y hy]
    omega
  rw [ltText, hdigit x hx, hdigit y hy]
  simp [heq]

theorem lastDigits_lt {width a b : ℕ} {s : Text} (h : a%10^width < b%10^width) :
    ltText (lastDigits width a ++ s) (lastDigits width b ++ s) = true := by
  induction width with
  | zero => simp [Nat.mod_one] at h
  | succ width ih =>
    -- The first digit decides, or the remainders of the same power do.
    rw [Nat.mod_pow_succ, Nat.mod_pow_succ] at h
    refine (ltText_digit (Nat.mod_lt _ (by decide)) (Nat.mod_lt _ (by decide))).mpr ?_
    rcases Nat.lt_trichotomy (a/10^width%10) (b/10^width%10) with hlt | heq | hgt
    · exact Or.inl hlt
    · rw [heq] at h
      exact Or.inr ⟨heq,ih (by omega)⟩
    · have hpower : 0 < 10^width := Nat.pow_pos (by decide)
      have hb := Nat.mod_lt b hpower
      have hmul := Nat.mul_le_mul_left (10^width) hgt
      rw [Nat.mul_succ] at hmul
      omega

theorem sstName_lt {a b : ℕ} (hab : a < b) (hb : b < 10^6) :
    ltText (sstName a) (sstName b) = true := by
  have ha := hab.trans hb
  rw [sstName, sstName, if_pos ha, if_pos hb]
  apply lastDigits_lt
  rwa [Nat.mod_eq_of_lt ha, Nat.mod_eq_of_lt hb]

/-- The names sort as the ids do, as long as these have six digits. -/
theorem openEngine_tables {files : List ℕ} (hnodup : files.Nodup)
    (hsix : ∀ id ∈ files, id < 10^6) :
    (openEngine files).sstables.Pairwise (fun a b => b < a) := by
  rw [openEngine, Engine.init, pairwise_reverse]
  have hsorted := pairwise_sortByName sstName files
  have hdistinct := (perm_insertionSort (fun a b => leText (sstName a) (sstName b) = true)
    files).nodup_iff.mpr hnodup
  refine (hsorted.and hdistinct).imp_of_mem ?_
  rintro a b ha - ⟨hle,hne⟩
  by_contra hlt
  have hba : b < a := by omega
  rw [leText, sstName_lt hba (hsix a ((mem_insertionSort _).mp ha))] at hle
  cases hle

theorem le_openEngine_seq {files : List ℕ} {id : ℕ} (h : id ∈ files) :
    id ≤ (openEngine files).seq :=
  le_max?_getD_of_mem (mem_reverse.mpr ((mem_insertionSort _).mpr h))

theorem recency_open {s : LsmState} (hs : Opened s) : Recency s := by
  obtain ⟨hnodup,hengine,hok⟩ := hs
  simp only [recoverable, Bool.and_eq_true, List.all_eq_true, any_eq_true, decide_eq_true_eq] at hok
  refine ⟨hengine ▸ openEngine_tables hnodup hok.1,fun id hid => ?_,fun q hq => ?_⟩
  · rw [hengine]
    exact Nat.lt_succ_of_le (le_openEngine_seq hid)
  · obtain ⟨id,hid,hle⟩ := hok.2 q hq
    rw [hengine]
    exact Nat.lt_succ_of_le (hle.trans (le_openEngine_seq hid))

theorem recency_step {s t : LsmState} {a : LsmAction} (hs : s.files.Nodup ∧ Recency s)
    (hok : recoverable s a = true) (ht : lsmStep s a = some t) : t.files.Nodup ∧ Recency t := by
  obtain ⟨hnodup,h⟩ := hs
  cases a with
  | write =>
    cases ht
    refine ⟨hnodup,h.tables,h.ids,fun q hq => ?_⟩
    rcases mem_append.mp hq with hq | hq
    · exact Nat.lt_succ_of_lt (h.seqs q hq)
    · rw [mem_singleton.mp hq]
      exact Nat.lt_succ_self _
  | table =>
    cases ht
    refine ⟨?_,h.tables,fun id hid => ?_,h.seqs⟩
    · refine nodup_append.mpr ⟨hnodup,nodup_singleton _,fun id hid id' hid' => ?_⟩
      rw [mem_singleton.mp hid']
      exact (h.ids id hid).ne
    · rcases mem_append.mp hid with hid | hid
      · exact Nat.lt_succ_of_lt (h.ids id hid)
      · rw [mem_singleton.mp hid]
        exact Nat.lt_succ_self _
  | restart =>
    cases ht
    exact ⟨hnodup,recency_open ⟨hnodup,rfl,hok⟩⟩

/-- Over every history whose opens are recoverable, the tables are newest first, and no id or
sequence number is handed out at or below an earlier one. -/
theorem recency_survives_restarts (s : LsmState)
    (hs : Reachable Opened lsmStep (fun s a => recoverable s a = true) s) : Recency s :=
  (reachable_invariant (fun s => s.files.Nodup ∧ Recency s)
    (fun _ h => ⟨h.1,recency_open h⟩) (fun _ _ _ => recency_step) s hs).2

def emptyStore : LsmState := ⟨[],[],openEngine []⟩

/-- A write, the table it is flushed to, a restart and another write. -/
theorem recency_after_flush :
    ∃ s, (Reachable Opened lsmStep (fun s a => recoverable s a = true) s ∧
      decide (s.wal = [1, 2]) = true) ∧ Recency s := by
  refine Exists.imp (fun s hs => ⟨hs,recency_survives_restarts s hs.1⟩) ?_
  exact reachable_of_checkedRun _ _ _ [.write, .table, .restart, .write] emptyStore
    ⟨nodup_nil,rfl,rfl⟩ (by decide +kernel)

/-- Ids of six and of seven digits are taken in the wrong order, and a restart before the first
flush hands out the sequence number of a logged write again. -/
theorem restart_loses_recency :
    (openEngine [999999, 1000000]).sstables = [999999, 1000000] ∧
    (run lsmStep emptyStore [.write, .restart, .write]).map LsmState.wal = some [1, 1] := by
  decide +kernel

end BackendGauntlet.LsmRedis
