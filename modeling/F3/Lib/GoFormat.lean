import F3.Lib.GoText

/-! What Fprintf leaves of its format when it has no operands: a text with a '%' in it never
comes out as it was. -/
namespace F3.Lib.GoText
open Lib (Bytes)
open Lib.Lines (cut cutLine cutPartition)

-- What a directive reads before its verb neither starts nor ends with '!'.
def Neat (c : Bytes) : Prop := c.head? ≠ some 33 ∧ c.getLast? ≠ some 33

theorem neatAll {c : Bytes} (each : 33 ∉ c) : Neat c :=
  ⟨fun head => each (List.mem_of_head? head),fun last => each (List.mem_of_getLast? last)⟩

theorem neatAppend {a b : Bytes} (one : Neat a) (two : Neat b) : Neat (a ++ b) := by
  constructor
  · cases a with
    | nil => exact two.1
    | cons x a => exact one.1
  · cases b using List.reverseRec with
    | nil => simpa using one.2
    | append_singleton b y => simpa [← List.append_assoc] using two.2

-- Every '%' is followed by '!'.
def Reported (out : Bytes) : Prop := 10 ∉ out ∧ ∀ a b, out = a ++ 37 :: b → b.head? = some 33

theorem reportedPlain {out : Bytes} (free : 10 ∉ out) (plain : 37 ∉ out) : Reported out :=
  ⟨free,fun a _ same => absurd (same ▸ List.mem_append_right a List.mem_cons_self) plain⟩

theorem reportedAppend {one two : Bytes} (first : Reported one) (second : Reported two) :
    Reported (one ++ two) := by
  refine ⟨by simp [first.1,second.1],fun a b same => ?_⟩
  rcases List.append_eq_append_iff.mp same with ⟨mid,_,isTwo⟩ | ⟨mid,isOne,rest⟩
  · exact second.2 mid b isTwo
  · cases mid with
    | nil => exact second.2 [] b rest.symm
    | cons x mid =>
      obtain ⟨rfl,rfl⟩ := List.cons.inj rest
      have head := first.2 a mid isOne
      cases mid with
      | nil => cases head
      | cons y mid => exact head

theorem reportedWord {word : Bytes} (free : 10 ∉ word) (plain : 37 ∉ word) : Reported (37 :: 33 :: word) := by
  refine ⟨by simp [free],fun a b same => ?_⟩
  cases a with
  | nil =>
    obtain ⟨_,rfl⟩ := List.cons.inj same
    rfl
  | cons x a =>
    obtain ⟨_,tail⟩ := List.cons.inj same
    have mem : (37 : UInt8) ∈ 33 :: word := tail ▸ List.mem_append_right a List.mem_cons_self
    simp [plain] at mem

-- A directive on its way: it has read `c`, or has swallowed the text.
structure Reads (text : Bytes) (s : Scan) : Prop where
  out : Reported s.out
  rest : s.rest = [] ∨ ∃ c, text = c ++ s.rest ∧ Neat c ∧ (s.out ≠ [] → c ≠ [])

theorem readsFurther {text : Bytes} {s t : Scan} (reads : Reads text s) (out : t.out = s.out)
    (further : t.rest = [] ∨ ∃ c, s.rest = c ++ t.rest ∧ Neat c) : Reads text t := by
  refine ⟨out ▸ reads.out,?_⟩
  rcases further with none | ⟨c,isC,neat⟩
  · exact .inl none
  · rcases reads.rest with none | ⟨before,isText,neatBefore,some⟩
    · have both := List.append_eq_nil_iff.mp (isC.symm.trans none)
      exact .inl both.2
    · refine .inr ⟨before ++ c,by rw [isText,isC,List.append_assoc],neatAppend neatBefore neat,fun isOut => ?_⟩
      simp [some (out ▸ isOut)]

theorem readsMark {text rest word : Bytes} {s t : Scan} {star : UInt8} (reads : Reads text s)
    (here : s.rest = star :: rest) (starOther : star ≠ 33) (out : t.out = s.out ++ 37 :: 33 :: word)
    (isRest : t.rest = rest) (free : 10 ∉ word) (plain : 37 ∉ word) : Reads text t := by
  refine ⟨out ▸ reportedAppend reads.out (reportedWord free plain),?_⟩
  rcases reads.rest with none | ⟨before,isText,neatBefore,_⟩
  · cases none.symm.trans here
  · refine .inr ⟨before ++ [star],by rw [isText,here,isRest]; simp,neatAppend neatBefore ?_,by simp⟩
    exact neatAll (by simpa using starOther.symm)

theorem argNumberRest (text : Bytes) : ∃ c, text = c ++ (argNumber text).rest ∧ Neat c := by
  unfold argNumber
  split
  · rename_i rest
    have bracket : Neat [91] := neatAll (by decide)
    split
    · exact ⟨[91],rfl,bracket⟩
    · split
      · exact ⟨[91],rfl,bracket⟩
      · rename_i inner after found
        refine ⟨(91 :: inner) ++ [93],?_,by simp,by rw [List.getLast?_concat]; decide⟩
        simp [(cutPartition found).1]
  · exact ⟨[],rfl,neatAll (by simp)⟩

theorem numberFromRest (isNum : Bool) (num : Nat) (text : Bytes) :
    (numberFrom isNum num text).2 = [] ∨ ∃ c, text = c ++ (numberFrom isNum num text).2 ∧ 33 ∉ c := by
  induction text generalizing isNum num with
  | nil => exact .inl rfl
  | cons b rest ih =>
    unfold numberFrom
    split
    · rename_i digit
      split
      · exact .inl rfl
      · refine (ih true (num * 10 + (b.toNat - 48))).imp_right ?_
        rintro ⟨c,isC,plain⟩
        refine ⟨b :: c,by rw [List.cons_append,← isC],?_⟩
        have other : b ≠ 33 := by
          rintro rfl
          exact absurd digit (by decide)
        simp [other.symm,plain]
    · exact .inr ⟨[],rfl,by simp⟩

theorem parsenumRest (text : Bytes) :
    (parsenum text).2 = [] ∨ ∃ c, text = c ++ (parsenum text).2 ∧ Neat c := by
  refine (numberFromRest false 0 text).imp_right ?_
  rintro ⟨c,isC,plain⟩
  exact ⟨c,isC,neatAll plain⟩

theorem scanIndexReads {text : Bytes} {s : Scan} (reads : Reads text s) : Reads text (scanIndex s) :=
  readsFurther reads rfl (.inr (argNumberRest s.rest))

theorem scanWidthReads {text : Bytes} {s : Scan} (reads : Reads text s) : Reads text (scanWidth s) := by
  unfold scanWidth
  split
  · rename_i rest here
    exact readsMark reads here (by decide) rfl rfl (by decide) (by decide)
  · exact readsFurther reads rfl (parsenumRest s.rest)

theorem scanPrecReads {text : Bytes} {s : Scan} (reads : Reads text s) : Reads text (scanPrec s) := by
  unfold scanPrec
  split
  · rename_i rest here
    have dot : Reads text ⟨s.out,rest,s.bad || s.after,s.after⟩ :=
      readsFurther reads rfl (.inr ⟨[46],here,neatAll (by decide)⟩)
    have index := scanIndexReads dot
    dsimp only
    split
    · rename_i after star
      exact readsMark index star (by decide) rfl rfl (by decide) (by decide)
    · exact readsFurther index rfl (parsenumRest _)
  · exact reads

theorem scanLastReads {text : Bytes} {s : Scan} (reads : Reads text s) : Reads text (scanLast s) := by
  unfold scanLast
  split
  · exact reads
  · exact scanIndexReads reads

theorem scanReads (text : Bytes) : Reads text
    (scanLast (scanPrec (scanWidth (scanIndex ⟨[],text.dropWhile isFlag,false,false⟩)))) := by
  have flags : 33 ∉ text.takeWhile isFlag := fun mem => absurd (List.mem_takeWhile_imp mem) (by decide)
  have start : Reads text ⟨[],text.dropWhile isFlag,false,false⟩ := by
    refine ⟨reportedPlain (by simp) (by simp),.inr ⟨text.takeWhile isFlag,?_,neatAll flags,by simp⟩⟩
    exact List.takeWhile_append_dropWhile.symm
  exact scanLastReads (scanPrecReads (scanWidthReads (scanIndexReads start)))

theorem followsHigh {low high : UInt8} {n : Nat} {rest : Bytes} (bound : 0x80 ≤ low)
    (follow : follows low high n rest = true) : ∀ x ∈ rest.take n, 0x80 ≤ x := by
  intro x mem
  cases rest with
  | nil => simp at mem
  | cons b rest =>
    cases n with
    | zero => simp at mem
    | succ n =>
      simp only [follows,Bool.and_eq_true,inside,decide_eq_true_eq,Nat.add_sub_cancel,List.all_eq_true] at follow
      rcases List.mem_cons.mp mem with rfl | later
      · exact UInt8.le_trans bound follow.1.1.1
      · exact (follow.2 x later).1

theorem runeHigh {b : UInt8} {rest : Bytes} {n : Nat} (high : ¬ b < 0x80) (size : runeSize (b::rest) = some n) :
    ∃ m, n = m + 1 ∧ ∀ x ∈ rest.take m, 0x80 ≤ x := by
  simp only [runeSize,if_neg high] at size
  have low : ∀ {c : Prop} [Decidable c] {x : UInt8}, 0x80 ≤ x → 0x80 ≤ (if c then x else 0x80) := by
    intro c _ x bound
    split
    · exact bound
    · decide
  cases two : (inside 0xC2 0xDF b && follows 0x80 0xBF 1 rest) with
  | true =>
    rw [if_pos two] at size
    exact ⟨1,(Option.some.inj size).symm,followsHigh (by decide) (Bool.and_eq_true_iff.mp two).2⟩
  | false =>
    rw [two,if_neg Bool.false_ne_true] at size
    cases three : (inside 0xE0 0xEF b && follows (if b = 0xE0 then 0xA0 else 0x80)
        (if b = 0xED then 0x9F else 0xBF) 2 rest) with
    | true =>
      rw [if_pos three] at size
      exact ⟨2,(Option.some.inj size).symm,followsHigh (low (by decide)) (Bool.and_eq_true_iff.mp three).2⟩
    | false =>
      rw [three,if_neg Bool.false_ne_true] at size
      cases four : (inside 0xF0 0xF4 b && follows (if b = 0xF0 then 0x90 else 0x80)
          (if b = 0xF4 then 0x8F else 0xBF) 3 rest) with
      | true =>
        rw [if_pos four] at size
        exact ⟨3,(Option.some.inj size).symm,followsHigh (low (by decide)) (Bool.and_eq_true_iff.mp four).2⟩
      | false =>
        rw [four,if_neg Bool.false_ne_true] at size
        contradiction

theorem readRuneCases (b : UInt8) (rest : Bytes) : readRune (b::rest) = ([b],rest) ∨
    ∃ verb taken left, readRune (b::rest) = (verb,left) ∧ b::rest = taken ++ left ∧ taken ≠ [] ∧
      (∀ x ∈ taken, 0x80 ≤ x) ∧ ∀ x ∈ verb, 0x80 ≤ x := by
  by_cases high : b < 0x80
  · left
    simp [readRune,runeSize,high]
  · right
    have first : 0x80 ≤ b := UInt8.not_lt.mp high
    unfold readRune
    split
    · rename_i n size
      obtain ⟨m,rfl,each⟩ := runeHigh high size
      have all : ∀ x ∈ (b::rest).take (m + 1), 0x80 ≤ x := by
        intro x mem
        rcases List.mem_cons.mp mem with rfl | later
        · exact first
        · exact each x later
      exact ⟨_,_,_,rfl,(List.take_append_drop (m + 1) _).symm,by simp,all,all⟩
    · exact ⟨_,[b],_,rfl,rfl,by simp,by simpa using first,by decide +kernel⟩

inductive Directs (text : Bytes) : Bytes × Bytes → Prop where
  | swallowed {out} (reported : Reported out) : Directs text (out ++ noVerb,[])
  | percent {c out rest} (isText : text = c ++ 37 :: rest) (neat : Neat c) (reported : Reported out)
      (some : out ≠ [] → c ≠ []) : Directs text (out ++ [37],rest)
  | lineEnd {c out note rest} (isText : text = c ++ 10 :: rest) (neat : Neat c) (reported : Reported out) :
      Directs text (out ++ 37 :: 33 :: 10 :: note,rest)
  | verb {c out taken word rest} (isText : text = c ++ taken ++ rest) (neat : Neat c) (reported : Reported out)
      (some : out ≠ [] → c ≠ []) (filled : taken ≠ []) (free : 10 ∉ taken)
      (bang : taken.head? = Option.some 33 → taken = [33] ∧ ∃ note, word = 33 :: note)
      (freeWord : 10 ∉ word) (plainWord : 37 ∉ word) : Directs text (out ++ 37 :: 33 :: word,rest)

theorem highFree {word : Bytes} {low : UInt8} (high : ∀ x ∈ word, 0x80 ≤ x) (isLow : low < 0x80) : low ∉ word :=
  fun mem => absurd (high low mem) (UInt8.not_le.mpr isLow)

theorem directs (text : Bytes) : Directs text (directive text) := by
  have reads := scanReads text
  unfold directive
  obtain ⟨s,isS⟩ : ∃ s, s = scanLast (scanPrec (scanWidth (scanIndex ⟨[],text.dropWhile isFlag,false,false⟩))) :=
    ⟨_,rfl⟩
  rw [← isS] at reads ⊢
  unfold writeVerb
  cases here : s.rest with
  | nil => exact .swallowed reads.out
  | cons b rest =>
    obtain ⟨c,isText,neat,some⟩ := reads.rest.resolve_left (by simp [here])
    obtain ⟨note,isNote,free,plain⟩ : ∃ note, note = (if s.bad then badIndex else missing) ∧ 10 ∉ note ∧ 37 ∉ note :=
      ⟨_,rfl,by split <;> decide,by split <;> decide⟩
    rw [← isNote,if_neg (by simp)]
    rw [here] at isText
    rcases readRuneCases b rest with one | ⟨verb,taken,left,many,isTaken,filled,high,highVerb⟩
    · simp only [one]
      split
      · rename_i isPercent
        cases isPercent
        exact .percent isText neat reads.out some
      · rename_i other
        by_cases line : b = 10
        · subst line
          simpa using @Directs.lineEnd text c s.out note rest isText neat reads.out
        · have isWord : s.out ++ [37,33] ++ [b] ++ note = s.out ++ 37 :: 33 :: (b :: note) := by simp
          rw [isWord]
          refine @Directs.verb text c s.out [b] _ rest (by simpa using isText) neat reads.out some (by simp) ?_ ?_ ?_ ?_
          · simpa using Ne.symm line
          · intro bang
            cases Option.some.inj bang
            exact ⟨rfl,note,rfl⟩
          · simp [free,Ne.symm line]
          · have apart : (37 : UInt8) ≠ b := fun same => other (by rw [same])
            simp [plain,apart]
    · simp only [many]
      rw [if_neg (fun same => highFree highVerb (show (37 : UInt8) < 0x80 by decide) (by simp [same]))]
      have isWord : s.out ++ [37,33] ++ verb ++ note = s.out ++ 37 :: 33 :: (verb ++ note) := by simp
      rw [isWord]
      refine .verb (by rw [isText,isTaken,List.append_assoc]) neat reads.out some filled
        (highFree high (by decide)) (fun bang => ?_) ?_ ?_
      · exact absurd (List.mem_of_head? bang) (highFree high (by decide))
      · simp [free,highFree highVerb (show (10 : UInt8) < 0x80 by decide)]
      · simp [plain,highFree highVerb (show (37 : UInt8) < 0x80 by decide)]

theorem formatPrefix {p : Bytes} (plain : 37 ∉ p) (fuel : Nat) (rest : Bytes) :
    format (p.length + fuel) (p ++ rest) = p ++ format fuel rest := by
  induction p with
  | nil => simp
  | cons b p ih =>
    simp only [List.mem_cons,not_or] at plain
    rw [List.length_cons,Nat.add_right_comm,List.cons_append,format,if_neg (Ne.symm plain.1),ih plain.2,
      List.cons_append]

theorem firstLine {a b c d : Bytes} (one : 10 ∉ a) (two : 10 ∉ c) (same : a ++ 10 :: b = c ++ 10 :: d) :
    a = c ∧ b = d := by
  have cuts := cutLine b one
  rw [same,cutLine d two] at cuts
  exact Prod.mk.inj (Option.some.inj cuts).symm

theorem lastLine {r a b : Bytes} (same : r ++ [10] = a ++ b) (filled : b ≠ []) :
    ∃ left, b = left ++ [10] ∧ r = a ++ left := by
  obtain ⟨left,y,rfl⟩ := (List.eq_nil_or_concat b).resolve_left filled
  rw [List.concat_eq_append,← List.append_assoc] at same
  obtain ⟨isR,isY⟩ := List.append_inj' same rfl
  exact ⟨left,by rw [List.concat_eq_append,isY],isR⟩

theorem alignPercent {out left before after : Bytes} (same : out ++ left = before ++ 37 :: after) :
    (∃ mid, before = out ++ mid ∧ left = mid ++ 37 :: after) ∨
    ∃ mid, out = before ++ 37 :: mid ∧ after = mid ++ left := by
  rcases List.append_eq_append_iff.mp same with ⟨mid,isBefore,isLeft⟩ | ⟨mid,isOut,rest⟩
  · exact .inl ⟨mid,isBefore,isLeft⟩
  · cases mid with
    | nil => exact .inl ⟨[],by simpa using isOut.symm,by simpa using rest.symm⟩
    | cons x mid =>
      obtain ⟨rfl,rfl⟩ := List.cons.inj rest
      exact .inr ⟨mid,isOut,rfl⟩

theorem formatShrunk {word more : Bytes} (filled : word ≠ []) (plain : 37 ∉ word) (free : 10 ∉ word)
    {fuel : Nat} {x : Bytes} (enough : x.length < fuel) : word ++ format fuel (x ++ [10]) ≠ x ++ 10 :: more := by
  induction fuel using Nat.strong_induction_on generalizing x with
  | _ fuel ih =>
    intro same
    rcases List.append_eq_append_iff.mp same with ⟨mid,rfl,rest⟩ | ⟨mid,isWord,rest⟩
    · obtain ⟨k,rfl⟩ : ∃ k, fuel = word.length + k := ⟨fuel - word.length,by simp at enough; omega⟩
      have some := List.length_pos_of_ne_nil filled
      rw [List.append_assoc,formatPrefix plain] at rest
      exact ih k (by omega) (by simp at enough; omega) rest
    · cases mid with
      | nil =>
        have isX : word = x := by simpa using isWord
        subst isX
        obtain ⟨k,rfl⟩ : ∃ k, fuel = word.length + k := ⟨fuel - word.length,by omega⟩
        rw [formatPrefix plain,List.nil_append] at rest
        have head : (10 : UInt8) ∈ word := by
          cases word with
          | nil => exact absurd rfl filled
          | cons b word => simp [(List.cons.inj rest).1]
        exact free head
      | cons y mid =>
        obtain ⟨rfl,_⟩ := List.cons.inj rest
        exact free (isWord ▸ List.mem_append_right x List.mem_cons_self)

theorem neatStart {c taken rest word left : Bytes} (neat : Neat c) (head : word.head? = some 33)
    (same : c ++ taken ++ rest = word ++ left) (filled : taken ≠ []) : c = [] ∧ taken.head? = some 33 := by
  cases word with
  | nil => cases head
  | cons y word =>
    cases Option.some.inj head
    cases c with
    | cons z c =>
      obtain ⟨rfl,_⟩ := List.cons.inj same
      exact absurd rfl neat.1
    | nil =>
      cases taken with
      | nil => exact absurd rfl filled
      | cons z taken =>
        obtain ⟨rfl,_⟩ := List.cons.inj same
        exact ⟨rfl,rfl⟩

theorem endsNeat {a b c : Bytes} (neat : Neat c) : a ++ [37,33] ≠ b ++ 37 :: c := by
  intro same
  have last := congrArg List.getLast? same
  cases c using List.reverseRec with
  | nil => simp at last
  | append_singleton c y =>
    rw [← List.cons_append,← List.append_assoc,List.getLast?_append,List.getLast?_append] at last
    have isY : y = 33 := (Option.some.inj last).symm
    exact neat.2 (by simp [isY])

theorem onlyLine {r c rest : Bytes} (line : 10 ∉ r) (same : r ++ [10] = c ++ 10 :: rest) : r = c ∧ rest = [] := by
  have counts := congrArg (List.count 10) same
  simp only [List.count_append,List.count_eq_zero.mpr line,List.count_cons_self,List.count_nil] at counts
  have free : 10 ∉ c := List.count_eq_zero.mp (by omega)
  obtain ⟨isC,isRest⟩ := firstLine line free same
  exact ⟨isC,isRest.symm⟩

theorem swallowedLine {p out text : Bytes} {k : Nat} (line : 10 ∉ p) (reported : Reported out)
    (same : p ++ (out ++ noVerb ++ format k []) = text) : 10 ∉ text := by
  have empty : format k [] = [] := by cases k <;> rfl
  rw [← same,empty]
  have note : (10 : UInt8) ∉ noVerb := by decide
  simp [line,reported.1,note]

theorem percentLine {r c rest : Bytes} (isText : r ++ [10] = c ++ 37 :: rest) :
    ∃ left, rest = left ++ [10] ∧ r = c ++ [37] ++ left := by
  refine lastLine (by simpa using isText) ?_
  rintro rfl
  have last := congrArg List.getLast? isText
  simp at last

theorem verbLine {r c taken rest : Bytes} (isText : r ++ [10] = c ++ taken ++ rest) (filled : taken ≠ [])
    (free : 10 ∉ taken) : ∃ left, rest = left ++ [10] ∧ r = c ++ taken ++ left := by
  refine lastLine isText ?_
  rintro rfl
  obtain ⟨left,isTaken,_⟩ := @lastLine r c taken (by simpa using isText) filled
  exact free (isTaken ▸ by simp)

theorem onePercent {p q word mid : Bytes} (plain : 37 ∉ p) (plainWord : 37 ∉ word)
    (same : p ++ 37 :: word = q ++ 37 :: mid) : p = q ∧ word = mid := by
  have counts := congrArg (List.count 37) same
  simp only [List.count_append,List.count_cons_self,List.count_eq_zero.mpr plain,List.count_eq_zero.mpr plainWord]
    at counts
  have free : 37 ∉ q := List.count_eq_zero.mp (by omega)
  have cut : ∀ {a b : Bytes}, 37 ∉ a → (a ++ 37 :: b).takeWhile (· ≠ 37) = a := by
    intro a b none
    rw [List.takeWhile_append_of_pos fun x mem => by simpa using ne_of_mem_of_not_mem mem none]
    simp
  have isQ : p = q := by rw [← cut plain,same,cut free]
  subst isQ
  exact ⟨rfl,(List.cons.inj (List.append_cancel_left same)).2⟩

theorem alignedPast {k : Nat} {out front taken left more : Bytes} (free : 10 ∉ front) (line : 10 ∉ taken)
    (further : ∀ {new : Bytes}, 10 ∉ new → new ≠ [] → format k (left ++ [10]) ≠ new ++ left ++ 10 :: more)
    (same : out ++ format k (left ++ [10]) = front ++ 37 :: (taken ++ left ++ 10 :: more)) :
    ∃ mid, out = front ++ 37 :: mid ∧ taken ++ left ++ 10 :: more = mid ++ format k (left ++ [10]) := by
  rcases alignPercent same with ⟨mid,isFront,isLeft⟩ | past
  · have inside : 10 ∉ mid := fun mem => free (isFront ▸ List.mem_append_right _ mem)
    exact absurd (by simpa using isLeft) (@further (mid ++ 37 :: taken) (by simp [inside,line]) (by simp))
  · exact past

-- A line comes out with itself at its end only if it holds no '%'. What a directive leaves of the text
-- comes out in the same way with more in front of it, so the statement is about any such front.
theorem formatSame {more : Bytes} {fuel : Nat} {x front : Bytes} (enough : x.length < fuel) (line : 10 ∉ x)
    (free : 10 ∉ front) (same : format fuel (x ++ [10]) = front ++ x ++ 10 :: more) : front = [] ∧ 37 ∉ x := by
  induction fuel using Nat.strong_induction_on generalizing x front with
  | _ fuel ih =>
    by_cases has : 37 ∈ x
    · exfalso
      obtain ⟨p,r,rfl,plain⟩ := List.eq_append_cons_of_mem has
      simp only [List.length_append,List.length_cons] at enough
      obtain ⟨k,rfl⟩ : ∃ k, fuel = p.length + (k + 1) := ⟨fuel - p.length - 1,by omega⟩
      simp only [List.mem_append,List.mem_cons,not_or] at line
      rw [List.append_assoc,List.cons_append,formatPrefix plain,format,if_pos rfl] at same
      have before : Reported p := reportedPlain line.1 plain
      have further : ∀ {left : Bytes}, left.length ≤ r.length → 10 ∉ left → ∀ {new : Bytes}, 10 ∉ new → new ≠ [] →
          format k (left ++ [10]) ≠ new ++ left ++ 10 :: more := fun {_} short lineLeft {_} none some again =>
        some (ih k (by omega) (by omega) lineLeft none again).1
      have ahead : 10 ∉ front ++ p := by simp [free,line.1]
      have shape := directs (r ++ [10])
      generalize directive (r ++ [10]) = result at same shape
      cases shape with
      | swallowed reported => exact swallowedLine line.1 reported same (by simp)
      | @lineEnd c out note rest isText neat reported =>
        obtain ⟨rfl,rfl⟩ := onlyLine line.2.2 isText
        have first : (p ++ out ++ [37,33]) ++ 10 :: (note ++ format k []) = (front ++ p ++ 37 :: r) ++ 10 :: more := by
          simpa using same
        exact endsNeat neat (firstLine (by simp [line.1,reported.1]) (by simp [free,line]) first).1
      | @percent c out rest isText neat reported some =>
        obtain ⟨left,rfl,rfl⟩ := percentLine isText
        simp only [List.mem_append,not_or] at line
        have aligned : (p ++ out ++ [37]) ++ format k (left ++ [10]) =
            (front ++ p) ++ 37 :: (c ++ [37] ++ left ++ 10 :: more) := by simpa using same
        have taken : 10 ∉ c ++ [37] := by simp [line.2.2.1.1]
        have later := @further left (by simp; omega) line.2.2.2
        obtain ⟨mid,isOut,isAfter⟩ := alignedPast ahead taken later aligned
        rcases List.eq_nil_or_concat mid with rfl | ⟨mid',y,rfl⟩
        · exact later taken (by simp) isAfter.symm
        · rw [List.concat_eq_append,← List.cons_append,← List.append_assoc] at isOut
          obtain ⟨isOut,_⟩ := List.append_inj' isOut rfl
          have head := (reportedAppend before reported).2 _ _ isOut
          have start : c ++ [37] ++ (left ++ 10 :: more) = mid' ++ (y :: format k (left ++ [10])) := by
            simpa using isAfter
          cases (neatStart neat head start (by simp)).2
      | @verb c out taken word rest isText neat reported some filled freeTaken bang freeWord plainWord =>
        obtain ⟨left,rfl,rfl⟩ := verbLine isText filled freeTaken
        simp only [List.mem_append,not_or] at line
        have aligned : (p ++ out ++ 37 :: 33 :: word) ++ format k (left ++ [10]) =
            (front ++ p) ++ 37 :: (c ++ taken ++ left ++ 10 :: more) := by simpa using same
        obtain ⟨mid,isOut,isAfter⟩ := alignedPast ahead (by simp [line.2.2.1.1,freeTaken])
          (@further left (by simp; omega) line.2.2.2) aligned
        have head := (reportedAppend (reportedAppend before reported) (reportedWord freeWord plainWord)).2 _ _ isOut
        have start : c ++ taken ++ (left ++ 10 :: more) = mid ++ format k (left ++ [10]) := by
          simpa using isAfter
        -- the report of this very directive starts with the text's own '!'
        obtain ⟨rfl,first⟩ := neatStart neat head start filled
        obtain ⟨rfl,note,rfl⟩ := bang first
        have isNil : out = [] := not_not.mp fun isOut => some isOut rfl
        rw [isNil,List.append_nil] at isOut
        obtain ⟨_,rfl⟩ := onePercent plain (by simpa using plainWord) isOut
        simp only [List.mem_cons,not_or] at freeWord plainWord
        exact @formatShrunk (33 :: note) more (by simp) (by simp [plainWord]) (by simp [freeWord]) k left
          (by simp at enough; omega) (by simpa using start.symm)
    · rw [formatPlain (by simpa using has) (by simp; omega)] at same
      have isX := (firstLine line (by simp [free,line]) (show x ++ 10 :: [] = (front ++ x) ++ 10 :: more from same)).1
      exact ⟨by simpa using isX,has⟩

end F3.Lib.GoText
