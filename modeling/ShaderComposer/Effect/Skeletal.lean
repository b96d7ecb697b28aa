import ShaderComposer.Core.Vertex

/-!
# Skeletal animation

Blends up to eight bone matrices for each vertex into the shared bone matrix, which the core
vertex shader then applies. Indices and weights come in sets of four.
-/

namespace ShaderComposer

structure Skeletal where
  joints : Nat
  /-- How many sets of four weights a vertex has. -/
  sets : Nat
  bones : List Mat4
deriving DecidableEq

namespace Skeletal

open Instruction

/-- A skeleton without a pose: at least one joint, one set of weights or two. -/
def create (joints weights : Nat) : Skeletal := ⟨max joints 1, if 4 < weights then 2 else 1, []⟩

def weightsPerVertex (s : Skeletal) : Nat := 4 * s.sets

def indexName (set : Nat) : String := "aBoneIndex" ++ toString (set + 1)

def weightName (set : Nat) : String := "aBoneWeight" ++ toString (set + 1)

def attributes (s : Skeletal) : List String :=
  (List.range s.sets).flatMap fun set => [indexName set, weightName set]

/-- A bone with its weight, for one component of a set. -/
def weightedBone (set : Nat) (component : String) : Term :=
  let indices := Term.declared (2 + 2 * set)
  let weights := Term.declared (3 + 2 * set)
  .swizzle weights component *
    .elementAt (.declared 1) (.construct .int [.swizzle indices component])

def weightedSum (set : Nat) : Term :=
  weightedBone set "x" + weightedBone set "y" + weightedBone set "z" + weightedBone set "w"

/-- The first set gives the bone matrix and the second is added to it. -/
def blend (set : Nat) : Instruction :=
  .call (.assign (if set = 0 then .set else .add) (.declared 0) (weightedSum set))

def fragment (s : Skeletal) : Fragment where
  id := skinningFragmentId
  location := .preTransform
  declarations :=
    [.role .gBoneTransfMatrix,
      .declare ⟨⟨"uBoneMatrix", .mat4, .uniform, some s.joints, none, none⟩, none⟩] ++
      s.attributes.map (.input .vec4)
  main := .expectDeclared :: (List.range s.sets).map blend
  uniforms := ["uBoneMatrix"]
  attributes := s.attributes

/-- The pose, cut to the joints there are; nothing is written before there is one. -/
def writes (s : Skeletal) : List (String × UniformValue) :=
  if s.bones.isEmpty then [] else [("uBoneMatrix", .mat4Array (s.bones.take s.joints))]

def streams (s : Skeletal) (v : MeshBuffers) : List (String × Option VertexBuffer) :=
  (List.range s.sets).flatMap fun set =>
    [(indexName set, v.boneIndices.getD set none), (weightName set, v.boneWeights.getD set none)]

end Skeletal

end ShaderComposer
