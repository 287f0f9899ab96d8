import Jpql.Error
import Jpql.Value

/-! Conversion between the raw scores of a vector distance and similarities on the scale from 0 to
1. A distance without a conversion of its own keeps its scores. -/

namespace Jpql

structure SimilarityNormalizer where
  function : ScoringFunction
  deriving DecidableEq, Repr

namespace SimilarityNormalizer

def identity : SimilarityNormalizer := ⟨.unspecified⟩

/-- The inner product shares the conversion of the dot product. -/
def get (f : ScoringFunction) : Result SimilarityNormalizer :=
  match f with
  | .euclidean => .ok ⟨.euclidean⟩
  | .cosine => .ok ⟨.cosine⟩
  | .dot | .innerProduct => .ok ⟨.dot⟩
  | .unspecified | .taxicab | .hamming => .error (.invalidArgument (.noNormalizer f.name))

def getOrIdentity (f : ScoringFunction) : SimilarityNormalizer := (get f).toOption.getD identity

def similarity (n : SimilarityNormalizer) (score : Float) : Float :=
  match n.function with
  | .euclidean => 1.0 / (1.0 + score * score)
  | .cosine => (1.0 + (1.0 - score)) / 2.0
  | .dot | .innerProduct => (1.0 - score) / 2.0
  | .unspecified | .taxicab | .hamming => score

/-- The score that stands for an infinite distance: the largest binary32 value. -/
def farthest : Float := Float.ofNat (0xFFFFFF * Nat.pow 2 104)

def score (n : SimilarityNormalizer) (similarity : Float) : Float :=
  match n.function with
  | .euclidean =>
    if similarity == 0.0 then farthest else (1.0 / similarity - 1.0).sqrt
  | .cosine => 1.0 - (similarity * 2.0 - 1.0)
  | .dot | .innerProduct => 1.0 - similarity * 2.0
  | .unspecified | .taxicab | .hamming => similarity

/-- The raw score to bind for a score argument. -/
def toScore (n : SimilarityNormalizer) (s : Score) : Float :=
  match s.kind with
  | .similarity => n.score s.value
  | .score => s.value

def render (n : SimilarityNormalizer) : String :=
  n.function.name ++ " Normalizer: Similarity[0 to 1] -> Score[" ++
    Number.fixed 6 (n.score 0.0) ++ " to " ++ Number.fixed 6 (n.score 1.0) ++ "]"

end SimilarityNormalizer

end Jpql
