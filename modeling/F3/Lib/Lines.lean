import Mathlib.Data.List.Basic

/-! Delimited lines read from a chunked source. A reader owns a buffer and refills
it with whole chunks; what follows the delimiter stays in that buffer and belongs
to the reader, not to the source. -/
namespace F3.Lib.Lines

variable {α : Type} [DecidableEq α]

def cut (d : α) : List α → Option (List α × List α)
  | [] => none
  | b::bs => if b = d then some ([],bs) else (cut d bs).map (fun p => (b::p.1,p.2))

def readLine (d : α) : List α → List (List α) → Option (List α × List α × List (List α))
  | buf,[] => (cut d buf).map (fun p => (p.1,p.2,[]))
  | buf,c::cs => match cut d buf with
    | some (line,rest) => some (line,rest,c::cs)
    | none => readLine d (buf ++ c) cs

theorem cutPartition {d : α} {buf line rest} (h : cut d buf = some (line,rest)) :
    buf = line ++ d :: rest ∧ d ∉ line := by
  induction buf generalizing line with
  | nil => contradiction
  | cons b bs ih =>
    unfold cut at h
    split at h
    · rename_i same
      cases Option.some.inj h
      exact ⟨by simp [same],by simp⟩
    · rename_i different
      obtain ⟨p,hp,same⟩ := Option.map_eq_some_iff.mp h
      cases same
      obtain ⟨parts,free⟩ := ih hp
      exact ⟨by simp [← parts],by simp [free,Ne.symm different]⟩

theorem cutNone {d : α} {buf : List α} : cut d buf = none ↔ d ∉ buf := by
  induction buf with
  | nil => simp [cut]
  | cons b bs ih =>
    unfold cut
    split
    · rename_i same
      simp [same]
    · rename_i different
      simp [ih,Ne.symm different]

theorem cutLine {d : α} {line : List α} (rest : List α) (free : d ∉ line) :
    cut d (line ++ d :: rest) = some (line,rest) := by
  induction line with
  | nil => simp [cut]
  | cons b bs ih =>
    simp only [List.mem_cons,not_or] at free
    simp [cut,Ne.symm free.1,ih free.2]

theorem readLinePartition {d : α} {buf : List α} {chunks : List (List α)} {line rest others}
    (h : readLine d buf chunks = some (line,rest,others)) :
    buf ++ chunks.flatten = line ++ d :: (rest ++ others.flatten) ∧ d ∉ line := by
  induction chunks generalizing buf with
  | nil =>
    obtain ⟨p,hp,same⟩ := Option.map_eq_some_iff.mp h
    cases same
    have parts := cutPartition hp
    exact ⟨by simpa using parts.1,parts.2⟩
  | cons c cs ih =>
    unfold readLine at h
    split at h
    · rename_i l r found
      cases Option.some.inj h
      have parts := cutPartition found
      refine ⟨?_,parts.2⟩
      conv => lhs; rw [parts.1]
      simp
    · have parts := ih h
      exact ⟨by simpa [List.append_assoc] using parts.1,parts.2⟩

theorem readLineNone {d : α} {buf : List α} {chunks : List (List α)}
    (h : readLine d buf chunks = none) : d ∉ buf ++ chunks.flatten := by
  induction chunks generalizing buf with
  | nil => simpa [readLine,cutNone] using h
  | cons c cs ih =>
    unfold readLine at h
    split at h
    · contradiction
    · simpa [List.append_assoc] using ih h

theorem readLineShorter {d : α} {buf : List α} {chunks : List (List α)} {line rest others}
    (free : d ∉ buf) (h : readLine d buf chunks = some (line,rest,others)) :
    others.length < chunks.length := by
  induction chunks generalizing buf with
  | nil => simp [readLine,cutNone.mpr free] at h
  | cons c cs ih =>
    simp only [readLine,cutNone.mpr free] at h
    by_cases mem : d ∈ buf ++ c
    · cases cs with
      | nil =>
        obtain ⟨p,hp,same⟩ := Option.map_eq_some_iff.mp h
        cases same
        simp
      | cons c' cs' =>
        unfold readLine at h
        split at h
        · cases Option.some.inj h
          simp
        · rename_i none
          exact absurd mem (cutNone.mp none)
    · exact Nat.lt_succ_of_lt (ih mem h)

/- A chunk that holds nothing after its first delimiter: a reader that stops at the
end of a line leaves nothing of it behind. -/
def EndsLine (d : α) (chunk : List α) : Prop := ∀ p ∈ cut d chunk, p.2 = []
instance (d : α) (chunk) : Decidable (EndsLine d chunk) := by unfold EndsLine; infer_instance

theorem endsLineFree {d : α} {chunk : List α} (free : d ∉ chunk) : EndsLine d chunk := by
  simp [EndsLine,cutNone.mpr free]

theorem cutAppend {d : α} {buf chunk : List α} (free : d ∉ buf) :
    cut d (buf ++ chunk) = (cut d chunk).map (fun p => (buf ++ p.1,p.2)) := by
  induction buf with
  | nil => simp
  | cons b bs ih =>
    simp only [List.mem_cons,not_or] at free
    simp only [List.cons_append,cut,Ne.symm free.1,if_false,ih free.2,Option.map_map]
    rfl

theorem readLineEnds {d : α} {buf : List α} {chunks : List (List α)} {line stream : List α}
    (free : d ∉ buf) (lineFree : d ∉ line) (ends : ∀ c ∈ chunks, EndsLine d c)
    (h : buf ++ chunks.flatten = line ++ d :: stream) :
    ∃ others, readLine d buf chunks = some (line,[],others) ∧ others.flatten = stream ∧
      ∀ c ∈ others, c ∈ chunks := by
  induction chunks generalizing buf with
  | nil =>
    have mem : d ∈ buf := by
      rw [List.flatten_nil,List.append_nil] at h
      simp [h]
    exact absurd mem free
  | cons c cs ih =>
    cases first : cut d c with
    | none =>
      have free' : d ∉ buf ++ c := by simp [free,cutNone.mp first]
      obtain ⟨others,found,rest,sub⟩ := ih free'
        (fun x mem => ends x (List.mem_cons_of_mem c mem)) (by simpa [List.append_assoc] using h)
      refine ⟨others,?_,rest,fun x mem => List.mem_cons_of_mem c (sub x mem)⟩
      simp [readLine,cutNone.mpr free,found]
    | some p =>
      obtain ⟨front,back⟩ := p
      have empty : back = [] := ends c List.mem_cons_self (front,back) first
      subst back
      have joined : cut d (buf ++ c) = some (buf ++ front,[]) := by
        rw [cutAppend free,first]
        rfl
      have parts := cutPartition joined
      have lines : buf ++ front = line ∧ cs.flatten = stream := by
        have whole : (buf ++ front) ++ d :: cs.flatten = line ++ d :: stream := by
          rw [← h,List.flatten_cons,← List.append_assoc,parts.1]
          simp
        have both := cutLine cs.flatten parts.2
        rw [whole,cutLine stream lineFree] at both
        cases Option.some.inj both
        exact ⟨rfl,rfl⟩
      refine ⟨cs,?_,lines.2,fun x mem => List.mem_cons_of_mem c mem⟩
      simp only [readLine,cutNone.mpr free]
      cases cs <;> simp [readLine,joined,lines.1]

theorem readLineUsed {d : α} {buf : List α} {chunks : List (List α)} {line others}
    (free : d ∉ buf) (h : readLine d buf chunks = some (line,[],others)) :
    ∃ used, chunks = used ++ others ∧ ∀ c ∈ used, EndsLine d c := by
  induction chunks generalizing buf with
  | nil => simp [readLine,cutNone.mpr free] at h
  | cons c cs ih =>
    simp only [readLine,cutNone.mpr free] at h
    cases first : cut d c with
    | none =>
      have free' : d ∉ buf ++ c := by simp [free,cutNone.mp first]
      obtain ⟨used,split,ends⟩ := ih free' h
      refine ⟨c::used,by simp [split],?_⟩
      intro x mem
      rcases List.mem_cons.mp mem with rfl | old
      · exact endsLineFree (cutNone.mp first)
      · exact ends x old
    | some p =>
      have joined : cut d (buf ++ c) = some (buf ++ p.1,p.2) := by
        rw [cutAppend free,first]
        rfl
      have last : p.2 = [] ∧ cs = others := by
        cases cs with
        | nil =>
          simp [readLine,joined] at h
          exact ⟨h.2.1,h.2.2.symm⟩
        | cons c' cs' =>
          simp [readLine,joined] at h
          exact ⟨h.2.1,h.2.2⟩
      refine ⟨[c],by simp [last.2],?_⟩
      intro x mem
      rw [List.mem_singleton.mp mem]
      intro q hq
      rw [first] at hq
      cases Option.some.inj hq
      exact last.1

end F3.Lib.Lines
