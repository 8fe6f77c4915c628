import F3.Lib.GoPath
import F3.ClientRequest

/-! The files that the transfer server opens and the transfer client creates. Both join the
name they are given to their temp_dir, whoever gave it; Join cleans the result, so a name
that goes up leads out of the directory unless it comes back by the same names. -/
namespace F3.TransferPath
open Lib (Bytes)
open Lib.GoPath
open Client

def handleConnection (tempDir : Bytes) (chunks : List Bytes) : Option Bytes :=
  (Request.handleConnection chunks).map fun message => join [tempDir,message]

def openConnection (tempDir fname : Bytes) : Bytes := join [tempDir,fname]

theorem confinedIff {tempDir : Bytes} (absolute : isRooted tempDir = true) :
    (∀ (chunks : List Bytes) (message : Bytes), Request.handleConnection chunks = some message →
      ∃ path, handleConnection tempDir chunks = some path ∧
        (Within tempDir path ↔ Returns tempDir message)) ∧
    ∀ fname : Bytes, Within tempDir (openConnection tempDir fname) ↔ Returns tempDir fname := by
  refine ⟨fun chunks message received => ?_,fun fname => joinWithin fname absolute⟩
  exact ⟨join [tempDir,message],by rw [handleConnection,received]; rfl,joinWithin message absolute⟩

theorem confinedDown {dir path : Bytes} (level : (way path).up = 0) : Returns dir path := by
  simp [Returns,level]

-- temp_dir "/t", asked for "a/../b", for "../t/c" and for "../e".
def tempDir : Bytes := [47,116]
def around : Bytes := [97,47,46,46,47,98]
def back : Bytes := [46,46,47,116,47,99]
def outside : Bytes := [46,46,47,101]

theorem aroundConfined : isRooted tempDir = true ∧
    (∃ path, handleConnection tempDir [around ++ [10]] = some path ∧ Within tempDir path) ∧
    Within tempDir (openConnection tempDir back) := by
  have rooted : isRooted tempDir = true := by decide
  obtain ⟨serves,creates⟩ := confinedIff rooted
  obtain ⟨path,opens,iff⟩ := serves [around ++ [10]] around (by decide)
  exact ⟨rooted,⟨path,opens,iff.mpr (confinedDown (by decide))⟩,(creates back).mpr (by decide)⟩

theorem outsideOpened : isRooted tempDir = true ∧
    handleConnection tempDir [outside ++ [10]] = some [47,101] ∧
    openConnection tempDir outside = [47,101] ∧ ¬ Within tempDir [47,101] := by
  decide

end F3.TransferPath
