import VectorIndex.Defaults
import VectorIndex.Method

/-!
# The HNSW method

A graph index with three integer parameters and an encoder. The graph degree
`m` and the encoder make up the description; the two effort parameters
`ef_construction` and `ef_search` reach the engine through the settings map.

* `Encoder`: the encoders, each a component.
* `Hnsw.method`: the method, given defaults for its integer parameters.
-/

namespace VectorIndex

/-! ## Encoders -/

/-- How vectors are stored. -/
inductive Encoder where
  /-- As they are. -/
  | flat
  /-- Every number in 16 bits. -/
  | sq
  /-- As codes from a code book, which has to be learned first. -/
  | pq
deriving DecidableEq

namespace Encoder

/-- Every encoder, in the order in which they are offered. -/
def all : List Encoder :=
  [flat, sq, pq]

/-- The name of an encoder. -/
def name : Encoder → String
  | flat => "flat"
  | sq => "sq"
  | pq => "pq"

/-- The encoder of a given name. -/
def ofName? (name : String) : Option Encoder :=
  all.find? (·.name == name)

/-- The 16-bit formats. -/
def formats : List String :=
  ["fp16", "bf16"]

/-- The most codes a vector can be split into. -/
def maxCodes : Int64 := 1024

/-- The one supported size of a code, in bits. -/
def codeSize : Int64 := 8

/-- The component of an encoder. -/
def component : Encoder → Except Defect Component
  | flat => (Component.Builder.empty "flat").build
  | sq => do
    let format ← Parameter.ofText "type" "fp16" formats.contains
    let clip ← Parameter.ofBoolean "clip" false fun _ => true
    (((Component.Builder.empty "sq").add format).add clip
      |>.describe ⟨"SQ", [⟨"type", "", ""⟩]⟩).build
  | pq => do
    let codes ← Parameter.ofInteger "m" 1 fun n => 0 < n && n ≤ maxCodes
    let size ← Parameter.ofInteger "code_size" codeSize (· == codeSize)
    (((Component.Builder.empty "pq").add codes).add size
      |>.describe ⟨"PQ", [⟨"m", "", ""⟩, ⟨"code_size", "x", ""⟩]⟩
      |>.train true).build

end Encoder

/-! ## The method -/

namespace Hnsw

/-- The name of the method. -/
def name : String := "hnsw"

/-- The spaces the method supports. -/
def spaces : List Space :=
  [.undefined, .hamming, .l2, .innerProduct]

/-- The name of the parameter that selects an encoder. -/
def encoderParameter : String := "encoder"

/-- A parameter that takes positive integers. -/
def knob (name : String) (default : Int64) : Except Defect Parameter :=
  Parameter.ofInteger name default (0 < ·)

/-- The choice of an encoder, by default the flat one. -/
def encoder : Except Defect Parameter := do
  let alternatives ← Encoder.all.mapM Encoder.component
  Parameter.ofChoice encoderParameter (.plain Encoder.flat.name) alternatives

/-- The component of the method. -/
def component (d : Defaults) : Except Defect Component := do
  let m ← knob "m" d.m
  let efConstruction ← knob "ef_construction" d.efConstruction
  let efSearch ← knob "ef_search" d.efSearch
  let encoder ← encoder
  (((((Component.Builder.empty name).add m).add efConstruction).add efSearch).add encoder
    |>.describe ⟨"HNSW", [⟨"m", "", ""⟩, ⟨encoderParameter, ",", ""⟩]⟩).build

/-- The method. It is refused only if one of the defaults is not positive. -/
def method (d : Defaults) : Except Defect Method :=
  (component d).map fun c => ⟨c, spaces⟩

end Hnsw

end VectorIndex
