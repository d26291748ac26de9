import Mathlib.Data.List.SplitBy
import BackendGauntlet.Dict
import BackendGauntlet.PyText

/-! The analyzer of the full-text search engine: text to terms, over any Unicode tables. -/
namespace BackendGauntlet.Search

open BackendGauntlet.PyText List

/-- CPython's tables: NFC, `str.casefold` of a character and `\w`. -/
structure Unicode where
  normalize : Text → Text
  casefold : Char → Text
  isWord : Char → Bool

/-- The maximal runs inside `p`, in order: `re.findall` of a character class with `+`. -/
def findRuns (p : Char → Bool) (s : Text) : List Text :=
  (s.splitBy (fun a b => p a == p b)).filter (fun r => r.all p)

namespace Unicode

def fold (u : Unicode) (s : Text) : Text := s.flatMap u.casefold

def isNormalized (u : Unicode) (s : Text) : Bool := u.normalize s == s

def tokens (u : Unicode) (s : Text) : List Text := findRuns u.isWord s

end Unicode

def defaultStopwords : List Text :=
  ["a", "an", "and", "are", "as", "at", "be", "but", "by", "for", "if", "in",
   "into", "is", "it", "no", "not", "of", "on", "or", "such", "that", "the",
   "their", "then", "there", "these", "they", "this", "to", "was", "will",
   "with"].map String.toList

structure AnalyzerConfig where
  lowercase : Bool := true
  removeStopwords : Bool := true
  minTokenLen : ℤ := 1
  stopwords : List Text := defaultStopwords

section
variable (u : Unicode) (config : AnalyzerConfig)

def foldTerm (raw : Text) : Text :=
  let term := if config.lowercase then u.fold raw else raw
  if !u.isNormalized term then u.normalize term else term

def analyzeToken (raw : Text) : Option Text :=
  let term := foldTerm u config raw
  if (term.length : ℤ) < config.minTokenLen then none
  else if config.removeStopwords && config.stopwords.contains term then none
  else some term

def analyze (text : Text) : List Text :=
  (u.tokens (u.normalize text)).filterMap (analyzeToken u config)

structure AnalyzedDoc where
  length : ℕ
  termFreqs : Dict Text ℕ
deriving DecidableEq

def counter (terms : List Text) : Dict Text ℕ :=
  terms.foldl (fun freqs term => freqs.set term ((freqs.get term).getD 0+1)) Dict.empty

def analyzeDoc (text : Text) : AnalyzedDoc :=
  let terms := analyze u config text
  { length := terms.length, termFreqs := counter terms }

end

/-- The tables on ASCII. -/
def latin : Unicode where
  normalize s := s
  casefold c := [c.toLower]
  isWord c := c.isAlphanum || c == '_'

end BackendGauntlet.Search
