import UniMem.Library.Grouping

/-!
# The index of a corpus of lessons

The index holds for each term the lessons that have it, with the weights of the term there. Floats are the bit
patterns of doubles, and what is computed with them comes from the caller.
-/

namespace UniMem.Retrieval

open Library

abbrev Double := BitVec 64

/-- The lessons of a term with the sums and the maxima of its weights. -/
structure Posting where
  docs : List ℤ
  wsums : List Double
  bests : List Double
  deriving DecidableEq

/-- `_CorpusIndex`: two dictionaries over the terms, and the numbers of terms. -/
structure CorpusIndex where
  nDocs : ℕ
  nTerms : List.Vector ℤ nDocs
  postings : List (String × Posting)
  docFreq : List (String × ℤ)
  avgFieldLen : Double
  maxIdf : Double
  lengthFactors : List Double
  tieBreaks : List (ℤ × ℤ)
  distinct : (postings.map Prod.fst).Nodup
  counted : docFreq.map Prod.fst = postings.map Prod.fst

/-- The texts and the numbers that an index is built from. -/
structure Scoring (Lesson : Type) where
  /-- The tokens of the fields of a lesson, with the weights of the fields. -/
  pairs : String → Lesson → List (List String × Double)
  /-- `_terms_for`, in the order in which the set is gone through. -/
  termsFor : String → List String → List String
  add : Double → Double → Double
  less : Double → Double → Bool
  /-- `sum(n_terms) / len(n_terms)`, or zero without lessons. -/
  average : List ℕ → Double
  /-- The largest `_idf` of document frequencies, or zero without terms. -/
  maxIdf : ℕ → List ℕ → Double
  /-- `_length_factor`. -/
  lengthFactor : ℕ → Double → Double
  /-- `_rank_int` of `importance` and of `uses`. -/
  tieBreak : Lesson → ℤ × ℤ

variable {Lesson : Type}

/-- One more occurrence of a term in a lesson. -/
def weigh (scoring : Scoring Lesson) (weight : Double) (inDoc : List (String × Double × Double)) (term : String) :
    List (String × Double × Double) :=
  match inDoc.lookup term with
  | none => inDoc ++ [(term, weight, weight)]
  | some (sum, best) =>
    assign term (scoring.add sum weight, if scoring.less best weight then weight else best) inDoc

/-- `in_doc`: the sum and the maximum of the weights of each term of a lesson. -/
def inDoc (scoring : Scoring Lesson) (scorer path : String) (lesson : Lesson) : List (String × Double × Double) :=
  (scoring.pairs path lesson).foldl
    (fun inDoc pair ↦ (scoring.termsFor scorer pair.1).foldl (weigh scoring pair.2) inDoc) []

/-- A lesson of a term with the weights of the term there. -/
structure Occurrence where
  term : String
  doc : ℕ
  sum : Double
  best : Double

def occurrences (scoring : Scoring Lesson) (scorer : String) (lessons : List (String × Lesson)) : List Occurrence :=
  lessons.zipIdx.flatMap fun entry ↦
    (inDoc scoring scorer entry.1.1 entry.1.2).map fun found ↦ ⟨found.1, entry.2, found.2.1, found.2.2⟩

/-- `postings`: the occurrences of each term in the order of the lessons. -/
def postings (scoring : Scoring Lesson) (scorer : String) (lessons : List (String × Lesson)) :
    List (String × Posting) :=
  (group Occurrence.term (occurrences scoring scorer lessons)).map fun entry ↦
    (entry.1, ⟨entry.2.map fun found ↦ (found.doc : ℤ), entry.2.map Occurrence.sum, entry.2.map Occurrence.best⟩)

/-- `_build_index`. -/
def buildIndex (scoring : Scoring Lesson) (scorer : String) (lessons : List (String × Lesson)) : CorpusIndex :=
  let nTerms := lessons.map fun entry ↦ (inDoc scoring scorer entry.1 entry.2).length
  let postings := postings scoring scorer lessons
  let docFreq := postings.map fun entry ↦ (entry.1, entry.2.docs.length)
  let average := scoring.average nTerms
  { nDocs := lessons.length
    nTerms := ⟨nTerms.map Nat.cast, by simp [nTerms]⟩
    postings := postings
    docFreq := docFreq.map fun entry ↦ (entry.1, (entry.2 : ℤ))
    avgFieldLen := average
    maxIdf := scoring.maxIdf lessons.length (docFreq.map Prod.snd)
    lengthFactors := nTerms.map fun count ↦ scoring.lengthFactor count average
    tieBreaks := lessons.map fun entry ↦ scoring.tieBreak entry.2
    distinct := by
      rw [show postings.map Prod.fst = (group Occurrence.term (occurrences scoring scorer lessons)).map Prod.fst from
        List.map_map ..]
      exact nodup_map_fst_group _ _
    counted := by simp [docFreq, List.map_map, Function.comp_def] }

/-- Two indexes that are equal, where dictionaries are equal in any order. -/
structure CorpusIndex.Same (first second : CorpusIndex) : Prop where
  nDocs : first.nDocs = second.nDocs
  nTerms : first.nTerms.toList = second.nTerms.toList
  postings : first.postings.Perm second.postings
  docFreq : first.docFreq.Perm second.docFreq
  avgFieldLen : first.avgFieldLen = second.avgFieldLen
  maxIdf : first.maxIdf = second.maxIdf
  lengthFactors : first.lengthFactors = second.lengthFactors
  tieBreaks : first.tieBreaks = second.tieBreaks

end UniMem.Retrieval
