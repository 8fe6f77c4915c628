import F3.Lib.GoText

/-! The volume ids of the controller: the three parts of a volume, each without the
slashes at its ends, joined by slashes. -/
namespace F3.Csi.Controller
open Lib (Bytes)
open Lib.GoText

structure F3Volume where
  id : Bytes
  server : Bytes
  baseDir : Bytes
  subDir : Bytes
  size : Int
  mountType : Bytes
  deriving DecidableEq, Repr

def slash : UInt8 := 47
def totalIDElements : Nat := 3

def F3Volume.parts (vol : F3Volume) : List Bytes := [vol.server,vol.baseDir,vol.subDir]

def getVolumeIDFromF3Vol (vol : F3Volume) : Bytes :=
  List.intercalate [slash] (vol.parts.map (trimByte slash))

-- "volume id %q unexpected format: got %v token(s) instead of %v"
structure UnexpectedFormat where
  id : Bytes
  got : Nat
  wanted : Nat
  deriving DecidableEq, Repr

def getF3VolFromID (id : Bytes) : Except UnexpectedFormat F3Volume :=
  let tokens := id.splitOn slash
  if tokens.length ≠ totalIDElements then .error ⟨id,tokens.length,totalIDElements⟩
  else .ok {
    id := id
    server := tokens.getD 0 []
    baseDir := tokens.getD 1 []
    subDir := tokens.getD 2 []
    size := 0
    mountType := [] }

theorem decoded {id : Bytes} {vol : F3Volume} : getF3VolFromID id = .ok vol ↔
    ∃ a b c, id.splitOn slash = [a,b,c] ∧ vol = ⟨id,a,b,c,0,[]⟩ := by
  simp only [getF3VolFromID,totalIDElements]
  constructor
  · intro ok
    by_cases count : (id.splitOn slash).length = 3
    · obtain ⟨a,b,c,tokens⟩ := List.length_eq_three.mp count
      simp only [count,ne_eq,not_true_eq_false,if_false] at ok
      cases Except.ok.inj ok
      exact ⟨a,b,c,tokens,by simp [tokens]⟩
    · simp [count] at ok
  · rintro ⟨a,b,c,tokens,rfl⟩
    simp [tokens]

theorem encodeSplits (vol : F3Volume) : (getVolumeIDFromF3Vol vol).splitOn slash =
    (vol.parts.map (trimByte slash)).flatMap (·.splitOn slash) := by
  simp [getVolumeIDFromF3Vol,F3Volume.parts,List.intercalate,List.splitOn_append_cons_self]

theorem encodeTokens (vol : F3Volume) : ((getVolumeIDFromF3Vol vol).splitOn slash).length =
    totalIDElements ↔ ∀ part ∈ vol.parts, slash ∉ trimByte slash part := by
  rw [encodeSplits]
  simp only [F3Volume.parts,List.map_cons,List.map_nil,List.flatMap_cons,List.flatMap_nil,
    List.length_append,List.length_nil,splitLength,totalIDElements,List.mem_cons,List.not_mem_nil,
    or_false,forall_eq_or_imp,forall_eq,← List.count_eq_zero]
  omega

theorem idCodec :
    (∀ id vol, getF3VolFromID id = .ok vol → getVolumeIDFromF3Vol vol = id) ∧
    ∀ vol, ((∃ w, getF3VolFromID (getVolumeIDFromF3Vol vol) = .ok w) ↔
        ∀ part ∈ vol.parts, slash ∉ trimByte slash part) ∧
      ∀ w, getF3VolFromID (getVolumeIDFromF3Vol vol) = .ok w →
        w = {
          id := getVolumeIDFromF3Vol vol
          server := trimByte slash vol.server
          baseDir := trimByte slash vol.baseDir
          subDir := trimByte slash vol.subDir
          size := 0
          mountType := [] } := by
  have accepts : ∀ vol, (∃ w, getF3VolFromID (getVolumeIDFromF3Vol vol) = .ok w) ↔
      ∀ part ∈ vol.parts, slash ∉ trimByte slash part := by
    intro vol
    rw [← encodeTokens,totalIDElements,List.length_eq_three]
    simp [decoded]
  refine ⟨fun id vol ok => ?_,fun vol => ⟨accepts vol,fun w ok => ?_⟩⟩
  · obtain ⟨a,b,c,tokens,rfl⟩ := decoded.mp ok
    have plain : [a,b,c].map (trimByte slash) = [a,b,c] := by
      refine (List.map_congr_left fun part mem => ?_).trans (List.map_id _)
      exact trimFree (splitFree (tokens ▸ mem))
    rw [getVolumeIDFromF3Vol,F3Volume.parts,plain,← tokens]
    exact List.intercalate_splitOn slash
  · have free := (accepts vol).mp ⟨w,ok⟩
    have whole : (getVolumeIDFromF3Vol vol).splitOn slash = vol.parts.map (trimByte slash) := by
      refine List.splitOn_intercalate slash ?_ (by simp [F3Volume.parts])
      intro part mem
      obtain ⟨raw,there,rfl⟩ := List.mem_map.mp mem
      exact free raw there
    obtain ⟨a,b,c,tokens,rfl⟩ := decoded.mp ok
    obtain ⟨rfl,rfl,rfl⟩ : a = trimByte slash vol.server ∧ b = trimByte slash vol.baseDir ∧
        c = trimByte slash vol.subDir := by simpa [F3Volume.parts,tokens] using whole
    rfl

end F3.Csi.Controller
