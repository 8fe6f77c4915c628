import F3.Lib.Bytes

/-! cxxopts.hpp as parse_options uses it: without positional options, and with nothing
unrecognised let through. The words that are no options are moved to the front of argv while
the rest of it is still being read. -/
namespace F3.Cxxopts
open Lib (Bytes)

-- [[:alnum:]] in the C locale.
def alnum (b : UInt8) : Bool := (48 ≤ b && b ≤ 57) || (65 ≤ b && b ≤ 90) || (97 ≤ b && b ≤ 122)

-- [-_[:alnum:]]
def nameChar (b : UInt8) : Bool := alnum b || b = 45 || b = 95

-- The dot of an ECMAScript expression.
def dot (b : UInt8) : Bool := b ≠ 10 && b ≠ 13

/- What option_matcher captures: the groups 1 and 3, or the group 4. A name has no '=', so that
there is one way to match. -/
inductive Match where
  | long (name : Bytes) (value : Option Bytes)
  | short (letters : Bytes)
  deriving DecidableEq, Repr

def longMatch (rest : Bytes) : Option Match :=
  let name := rest.takeWhile nameChar
  if name.head?.any alnum ∧ 2 ≤ name.length then
    match rest.drop name.length with
    | [] => some (.long name none)
    | b :: value => if b = 61 ∧ value.all dot then some (.long name (some value)) else none
  else none

def optionMatcher : Bytes → Option Match
  | 45 :: 45 :: rest => longMatch rest
  | 45 :: b :: rest => if (b :: rest).all alnum then some (.short (b :: rest)) else none
  | _ => none

def dashed : Bytes → Bool
  | 45 :: _ :: _ => true
  | _ => false

/- An option under its long and its short name; a boolean one has the implicit value "true". -/
structure Details (α : Type) where
  option : α
  boolean : Bool
  deriving DecidableEq, Repr

inductive Exception where
  | optionSyntax (text : Bytes)
  | optionNotExists (name : Bytes)
  | missingArgument (name : Bytes)
  | optionRequiresArgument (name : Bytes)
  | argumentIncorrectType (text : Bytes)
  deriving DecidableEq, Repr

def implicit : Bytes := [116,114,117,101]

-- (t|T)(rue)?|1 and (f|F)(alse)?|0
def truthy (text : Bytes) : Bool :=
  text = [116] || text = [84] || text = [116,114,117,101] || text = [84,114,117,101] || text = [49]

def falsy (text : Bytes) : Bool :=
  text = [102] || text = [70] || text = [102,97,108,115,101] || text = [70,97,108,115,101] || text = [48]

def Details.accepts {α : Type} (d : Details α) (text : Bytes) : Bool :=
  !d.boolean || truthy text || falsy text

section Parse
variable {α : Type} (options : Bytes → Option (Details α))

/- The words, the one that is read and the place of the next that is kept; `sequential` is
every option with its value, in order. -/
structure Parsing (α : Type) where
  argv : List Bytes
  current : Nat
  nextKeep : Nat
  sequential : List (α × Bytes)
  deriving DecidableEq, Repr

def parseOption (d : Details α) (arg : Bytes) (s : Parsing α) : Except Exception (Parsing α) :=
  if d.accepts arg then .ok {s with sequential := s.sequential ++ [(d.option,arg)]}
  else .error (.argumentIncorrectType arg)

def checkedParseArg (d : Details α) (name : Bytes) (s : Parsing α) : Except Exception (Parsing α) :=
  if s.argv.length ≤ s.current + 1 then
    if d.boolean then parseOption d implicit s else .error (.missingArgument name)
  else if d.boolean then parseOption d implicit s
  else do
    let s ← parseOption d (s.argv.getD (s.current + 1) []) s
    .ok {s with current := s.current + 1}

def parseLetters : Bytes → Parsing α → Except Exception (Parsing α)
  | [],s => .ok s
  | b :: rest,s => match options [b] with
      | none => .error (.optionNotExists [b])
      | some d =>
          if rest = [] then checkedParseArg d [b] s
          else if d.boolean then do
            let s ← parseOption d implicit s
            parseLetters rest s
          else .error (.optionRequiresArgument [b])

def parseLong (name : Bytes) (value : Option Bytes) (s : Parsing α) : Except Exception (Parsing α) :=
  match options name with
  | none => .error (.optionNotExists name)
  | some d => match value with
      | some value => parseOption d value s
      | none => checkedParseArg d name s

def keep (w : Bytes) (s : Parsing α) : Parsing α :=
  {s with argv := s.argv.set s.nextKeep w, nextKeep := s.nextKeep + 1}

def parseWord (w : Bytes) (s : Parsing α) : Except Exception (Parsing α) :=
  match optionMatcher w with
  | none => if dashed w then .error (.optionSyntax w) else .ok (keep w s)
  | some (.short letters) => parseLetters options letters s
  | some (.long name value) => parseLong options name value s

def consumeRemaining : Nat → Parsing α → Parsing α
  | 0,s => s
  | left + 1,s => consumeRemaining left {keep (s.argv.getD s.current []) s with current := s.current + 1}

/- The loop over argv. A word moves `current` on by at least one, so that it ends within as many
rounds as there are words. -/
def parseLoop : Nat → Parsing α → Except Exception (Parsing α)
  | 0,s => .ok s
  | rounds + 1,s =>
      if s.argv.length ≤ s.current then .ok s
      else
        let w := s.argv.getD s.current []
        if w = [45,45] then
          .ok (consumeRemaining (s.argv.length - (s.current + 1)) {s with current := s.current + 1})
        else do
          let s ← parseWord options w s
          parseLoop rounds {s with current := s.current + 1}

def parse (argv : List Bytes) : Except Exception (List Bytes × List (α × Bytes)) := do
  let s ← parseLoop options argv.length ⟨argv,1,1,[]⟩
  .ok (s.argv.take s.nextKeep,s.sequential)

end Parse

section Results
variable {α : Type} [DecidableEq α]

def count (sequential : List (α × Bytes)) (option : α) : Nat := sequential.countP fun p => p.1 = option

def value (sequential : List (α × Bytes)) (option : α) : Option Bytes :=
  ((sequential.filter fun p => p.1 = option).getLast?).map Prod.snd

end Results

section Meaning
variable {α : Type}

inductive Argument (d : Details α) : List Bytes → Bytes → List Bytes → Prop where
  | flag {words} (boolean : d.boolean = true) : Argument d words implicit words
  | next {arg words} (text : d.boolean = false) : Argument d (arg :: words) arg words

variable (options : Bytes → Option (Details α))

inductive Cluster (words : List Bytes) : Bytes → List (α × Bytes) → List Bytes → Prop where
  | last {b d arg rest} (known : options [b] = some d) (taken : Argument d words arg rest) :
      Cluster words [b] [(d.option,arg)] rest
  | flag {b letters d given rest} (known : options [b] = some d) (boolean : d.boolean = true)
      (more : Cluster words letters given rest) :
      Cluster words (b :: letters) ((d.option,implicit) :: given) rest

inductive Gives (w : Bytes) (words : List Bytes) : List (α × Bytes) → List Bytes → Prop where
  | equals {name arg d} (shape : optionMatcher w = some (.long name (some arg)))
      (known : options name = some d) (accepted : d.accepts arg) : Gives w words [(d.option,arg)] words
  | spaced {name arg d rest} (shape : optionMatcher w = some (.long name none))
      (known : options name = some d) (taken : Argument d words arg rest) :
      Gives w words [(d.option,arg)] rest
  | letters {letters given rest} (shape : optionMatcher w = some (.short letters))
      (cluster : Cluster options words letters given rest) : Gives w words given rest

inductive Reads : List Bytes → List (α × Bytes) → List Bytes → Prop where
  | done : Reads [] [] []
  | remaining {words} : Reads ([45,45] :: words) [] words
  | kept {w words given left} (plain : optionMatcher w = none) (fine : dashed w = false)
      (more : Reads words given left) : Reads (w :: words) given (w :: left)
  | option {w words given rest later left} (gives : Gives options w words given rest)
      (more : Reads rest later left) : Reads (w :: words) (given ++ later) left

end Meaning

section Loop
variable {α : Type} {options : Bytes → Option (Details α)}

/- The loop in the middle of argv: the words kept so far stand in front, the words still to be
read at the end, and what lies between them does not matter. -/
structure At (s : Parsing α) (front words : List Bytes) : Prop where
  kept : s.argv.take s.nextKeep = front
  unread : s.argv.drop s.current = words
  behind : s.nextKeep ≤ s.current
  inside : s.current ≤ s.argv.length

def Parsing.give (s : Parsing α) (given : List (α × Bytes)) : Parsing α :=
  {s with sequential := s.sequential ++ given}

def Parsing.next (s : Parsing α) : Parsing α := {s with current := s.current + 1}

def Parsing.upTo (s : Parsing α) (words rest : List Bytes) : Parsing α :=
  {s with current := s.current + (words.length - rest.length)}

theorem giveGive (s : Parsing α) (a b : List (α × Bytes)) : (s.give a).give b = s.give (a ++ b) := by
  simp [Parsing.give]

@[simp] theorem upToSelf (s : Parsing α) (words : List Bytes) : s.upTo words words = s := by
  simp [Parsing.upTo]

@[simp] theorem upToTail (s : Parsing α) (w : Bytes) (words : List Bytes) :
    s.upTo (w :: words) words = s.next := by
  simp [Parsing.upTo,Parsing.next]

variable {s t : Parsing α} {front words rest : List Bytes} {w : Bytes} {given : List (α × Bytes)}

theorem At.give (here : At s front words) (given : List (α × Bytes)) : At (s.give given) front words :=
  ⟨here.1,here.2,here.3,here.4⟩

theorem At.left (here : At s front words) : s.argv.length = s.current + words.length := by
  have size := congrArg List.length here.unread
  have inside := here.inside
  rw [List.length_drop] at size
  omega

theorem At.upTo (here : At s front words) (suffix : rest <:+ words) : At (s.upTo words rest) front rest := by
  have left := here.left
  have inside := here.inside
  refine ⟨here.kept,?_,Nat.le_add_right_of_le here.behind,?_⟩
  · show s.argv.drop (s.current + (words.length - rest.length)) = rest
    rw [← List.drop_drop,here.unread]
    exact (List.suffix_iff_eq_drop.mp suffix).symm
  · show s.current + (words.length - rest.length) ≤ s.argv.length
    omega

theorem At.next (here : At s front (w :: words)) : At s.next front words := by
  have moved := here.upTo (List.suffix_cons w words)
  rwa [upToTail] at moved

theorem At.word (here : At s front (w :: words)) : s.argv.getD s.current [] = w := by
  have first := congrArg List.head? here.unread
  rw [List.head?_drop,List.head?_cons] at first
  rw [List.getD_eq_getElem?_getD,first]
  rfl

theorem At.keep (here : At s front (w :: words)) : At (keep w s).next (front ++ [w]) words := by
  have left := here.left
  have behind := here.behind
  rw [List.length_cons] at left
  refine ⟨?_,?_,Nat.succ_le_succ behind,?_⟩
  · show (s.argv.set s.nextKeep w).take (s.nextKeep + 1) = _
    rw [List.take_add_one,List.take_set_of_le (Nat.le_refl _),here.kept,List.getElem?_set_self (by omega)]
    rfl
  · show (s.argv.set s.nextKeep w).drop (s.current + 1) = _
    rw [List.drop_set_of_lt (Nat.lt_succ_of_le behind)]
    exact here.next.unread
  · show s.current + 1 ≤ (s.argv.set s.nextKeep w).length
    rw [List.length_set]
    omega

theorem Argument.suffix {d : Details α} {arg : Bytes} (taken : Argument d words arg rest) : rest <:+ words := by
  cases taken with
  | flag _ => exact List.suffix_refl _
  | next _ => exact List.suffix_cons _ _

theorem Cluster.suffix {letters : Bytes} (cluster : Cluster options words letters given rest) : rest <:+ words := by
  induction cluster with
  | last _ taken => exact taken.suffix
  | flag _ _ _ ih => exact ih

theorem Gives.suffix (gives : Gives options w words given rest) : rest <:+ words := by
  cases gives with
  | equals _ _ _ => exact List.suffix_refl _
  | spaced _ _ taken => exact taken.suffix
  | letters _ cluster => exact cluster.suffix

theorem acceptsImplicit (d : Details α) : d.accepts implicit := by
  simp [Details.accepts,truthy,implicit]

theorem acceptsText {d : Details α} (text : d.boolean = false) (arg : Bytes) : d.accepts arg := by
  simp [Details.accepts,text]

theorem parseOptionOk {d : Details α} {arg : Bytes} :
    parseOption d arg s = .ok t ↔ d.accepts arg ∧ t = s.give [(d.option,arg)] := by
  by_cases fine : d.accepts arg
  · rw [parseOption,if_pos fine,Except.ok.injEq]
    exact ⟨fun same => ⟨fine,same.symm⟩,fun given => given.2.symm⟩
  · simp [parseOption,fine]

theorem parseFlag (d : Details α) (s : Parsing α) :
    parseOption d implicit s = .ok (s.give [(d.option,implicit)]) :=
  parseOptionOk.mpr ⟨acceptsImplicit d,rfl⟩

theorem checkedParseArgOk {d : Details α} {name : Bytes}
    (here : At s front (w :: words)) :
    checkedParseArg d name s = .ok t ↔
      ∃ arg rest, Argument d words arg rest ∧ t = (s.give [(d.option,arg)]).upTo words rest := by
  have left := here.left
  cases boolean : d.boolean with
  | true =>
    rw [checkedParseArg,if_pos boolean,if_pos boolean,ite_self,parseFlag,Except.ok.injEq]
    constructor
    · rintro rfl
      exact ⟨_,words,.flag boolean,(upToSelf _ _).symm⟩
    · rintro ⟨arg,rest,taken,rfl⟩
      cases taken with
      | flag _ => rw [upToSelf]
      | next text => simp [text] at boolean
  | false =>
    cases words with
    | nil =>
      have last : s.argv.length ≤ s.current + 1 := Nat.le_of_eq left
      rw [checkedParseArg,if_pos last,if_neg (by simp [boolean])]
      refine ⟨nofun,?_⟩
      rintro ⟨arg,rest,taken,-⟩
      cases taken with
      | flag flag => simp [flag] at boolean
    | cons arg more =>
      have some : ¬ s.argv.length ≤ s.current + 1 := by
        simp only [List.length_cons] at left
        omega
      have word : s.argv.getD (s.current + 1) [] = arg := here.next.word
      have given : parseOption d arg s = .ok (s.give [(d.option,arg)]) :=
        parseOptionOk.mpr ⟨acceptsText boolean arg,rfl⟩
      have eq : checkedParseArg d name s = .ok (s.give [(d.option,arg)]).next := by
        rw [checkedParseArg,if_neg some,if_neg (by simp [boolean]),word,given]
        rfl
      rw [eq,Except.ok.injEq]
      constructor
      · rintro rfl
        exact ⟨arg,more,.next boolean,(upToTail _ _ _).symm⟩
      · rintro ⟨arg',rest,taken,rfl⟩
        cases taken with
        | flag flag => simp [flag] at boolean
        | next _ => rw [upToTail]

theorem parseLettersOk {letters : Bytes} (some : letters ≠ []) (here : At s front (w :: words)) :
    parseLetters options letters s = .ok t ↔
      ∃ given rest, Cluster options words letters given rest ∧ t = (s.give given).upTo words rest := by
  induction letters generalizing s with
  | nil => exact absurd rfl some
  | cons b letters ih =>
    cases known : options [b] with
    | none =>
      simp only [parseLetters,known]
      refine ⟨nofun,?_⟩
      rintro ⟨given,rest,cluster,-⟩
      cases cluster with
      | last found _ => simp [known] at found
      | flag found _ _ => simp [known] at found
    | some d =>
      by_cases last : letters = []
      · subst last
        simp only [parseLetters,known,if_true,checkedParseArgOk here]
        constructor
        · rintro ⟨arg,rest,taken,rfl⟩
          exact ⟨_,rest,.last known taken,rfl⟩
        · rintro ⟨given,rest,cluster,rfl⟩
          cases cluster with
          | last found taken =>
            cases known.symm.trans found
            exact ⟨_,rest,taken,rfl⟩
          | flag _ _ more => cases more
      · cases boolean : d.boolean with
        | false =>
          simp only [parseLetters,known,if_neg last,boolean,Bool.false_eq_true,if_false]
          refine ⟨nofun,?_⟩
          rintro ⟨given,rest,cluster,-⟩
          cases cluster with
          | last _ _ => exact absurd rfl last
          | flag found flag _ =>
            cases known.symm.trans found
            simp [flag] at boolean
        | true =>
          have step : parseLetters options (b :: letters) s =
              parseLetters options letters (s.give [(d.option,implicit)]) := by
            simp only [parseLetters,known,if_neg last,boolean,if_true,parseFlag]
            rfl
          rw [step,ih last (here.give _)]
          constructor
          · rintro ⟨given,rest,cluster,rfl⟩
            exact ⟨_,rest,.flag known boolean cluster,by rw [giveGive]; rfl⟩
          · rintro ⟨given,rest,cluster,rfl⟩
            cases cluster with
            | last _ _ => exact absurd rfl last
            | flag found _ more =>
              cases known.symm.trans found
              exact ⟨_,rest,more,by rw [giveGive]; rfl⟩

theorem longIsLong {rest letters : Bytes} : longMatch rest ≠ some (.short letters) := by
  simp only [longMatch]
  split
  · split
    · nofun
    · split <;> nofun
  · nofun

theorem shortSome {letters : Bytes} (shape : optionMatcher w = some (.short letters)) : letters ≠ [] := by
  unfold optionMatcher at shape
  split at shape
  · exact absurd shape longIsLong
  · split at shape
    · cases shape
      nofun
    · cases shape
  · cases shape

theorem parseWordOk (here : At s front (w :: words)) :
    parseWord options w s = .ok t ↔
      (optionMatcher w = none ∧ dashed w = false ∧ t = keep w s) ∨
      ∃ given rest, Gives options w words given rest ∧ t = (s.give given).upTo words rest := by
  constructor
  · intro ok
    unfold parseWord at ok
    split at ok
    case h_1 plain =>
      split at ok
      · cases ok
      · rename_i fine
        cases ok
        exact .inl ⟨plain,by simpa using fine,rfl⟩
    case h_2 letters shape =>
      obtain ⟨given,rest,cluster,rfl⟩ := (parseLettersOk (shortSome shape) here).mp ok
      exact .inr ⟨given,rest,.letters shape cluster,rfl⟩
    case h_3 name value shape =>
      unfold parseLong at ok
      split at ok
      · cases ok
      · rename_i d known
        cases value with
        | some arg =>
          obtain ⟨accepted,rfl⟩ := parseOptionOk.mp ok
          exact .inr ⟨_,words,.equals shape known accepted,(upToSelf _ _).symm⟩
        | none =>
          obtain ⟨arg,rest,taken,rfl⟩ := (checkedParseArgOk here).mp ok
          exact .inr ⟨_,rest,.spaced shape known taken,rfl⟩
  · rintro (⟨plain,fine,rfl⟩ | ⟨given,rest,gives,rfl⟩)
    · simp [parseWord,plain,fine]
    · cases gives with
      | equals shape known accepted =>
        simp only [parseWord,shape,parseLong,known,upToSelf]
        exact parseOptionOk.mpr ⟨accepted,rfl⟩
      | spaced shape known taken =>
        simp only [parseWord,shape,parseLong,known]
        exact (checkedParseArgOk here).mpr ⟨_,rest,taken,rfl⟩
      | letters shape cluster =>
        simp only [parseWord,shape]
        exact (parseLettersOk (shortSome shape) here).mpr ⟨given,rest,cluster,rfl⟩

theorem consumeRemainingAt {words : List Bytes} : ∀ {s : Parsing α} {front : List Bytes}, At s front words →
    (consumeRemaining words.length s).sequential = s.sequential ∧
      (consumeRemaining words.length s).argv.take (consumeRemaining words.length s).nextKeep = front ++ words := by
  induction words with
  | nil =>
    intro s front here
    exact ⟨rfl,by simpa [consumeRemaining] using here.kept⟩
  | cons w words ih =>
    intro s front here
    have kept := ih here.keep
    have same : consumeRemaining (words.length + 1) s = consumeRemaining words.length (keep w s).next := by
      rw [consumeRemaining,here.word]
      rfl
    rw [List.append_assoc,← same] at kept
    exact kept

def Ends (s t : Parsing α) (front : List Bytes) (given : List (α × Bytes)) (left : List Bytes) : Prop :=
  t.sequential = s.sequential ++ given ∧ t.argv.take t.nextKeep = front ++ left

theorem endsHere (here : At s front []) : Ends s s front [] [] := by
  simp [Ends,here.kept]

theorem parseLoopDone (here : At s front []) (rounds : Nat) :
    parseLoop options rounds s = .ok s := by
  cases rounds with
  | zero => rfl
  | succ rounds =>
    have finished : s.argv.length ≤ s.current := Nat.le_of_eq here.left
    rw [parseLoop,if_pos finished]

theorem parseLoopRemaining (here : At s front ([45,45] :: words))
    (rounds : Nat) : parseLoop options (rounds + 1) s = .ok (consumeRemaining words.length s.next) := by
  have left := here.left
  rw [List.length_cons] at left
  have some : ¬ s.argv.length ≤ s.current := by omega
  have size : s.argv.length - (s.current + 1) = words.length := by omega
  rw [parseLoop,if_neg some,here.word]
  dsimp only
  rw [if_pos rfl,size]
  rfl

theorem parseLoopWord (here : At s front (w :: words))
    (word : w ≠ [45,45]) (rounds : Nat) : parseLoop options (rounds + 1) s =
      (parseWord options w s).bind fun t => parseLoop options rounds t.next := by
  have left := here.left
  rw [List.length_cons] at left
  have some : ¬ s.argv.length ≤ s.current := by omega
  rw [parseLoop,if_neg some,here.word]
  dsimp only
  rw [if_neg word]
  rfl

theorem remainingEnds (here : At s front ([45,45] :: words)) :
    Ends s (consumeRemaining words.length s.next) front [] words := by
  have rest := consumeRemainingAt here.next
  exact ⟨rest.1.trans (List.append_nil _).symm,rest.2⟩

theorem keptEnds {left : List Bytes}
    (ends : Ends (keep w s).next t (front ++ [w]) given left) : Ends s t front given (w :: left) := by
  have words := ends.2
  rw [List.append_assoc] at words
  exact ⟨ends.1,words⟩

theorem givenEnds {left : List Bytes} {later : List (α × Bytes)}
    (ends : Ends ((s.give given).upTo words rest).next t front later left) :
    Ends s t front (given ++ later) left := by
  have options := ends.1
  refine ⟨?_,ends.2⟩
  rw [← List.append_assoc]
  exact options

theorem At.after (here : At s front (w :: words)) (suffix : rest <:+ words) :
    At ((s.give given).upTo words rest).next front rest := by
  have moved := (here.give given).next.upTo suffix
  simp only [Parsing.next,Parsing.upTo] at moved ⊢
  rwa [Nat.add_right_comm] at moved

theorem loopAccepts {words : List Bytes} : ∀ (rounds : Nat) {s t : Parsing α} {front : List Bytes},
    At s front words → words.length ≤ rounds → parseLoop options rounds s = .ok t →
    ∃ given left, Reads options words given left ∧ Ends s t front given left := by
  intro rounds
  induction rounds generalizing words with
  | zero =>
    intro s t front here enough ok
    cases List.eq_nil_of_length_eq_zero (Nat.le_zero.mp enough)
    cases ok
    exact ⟨[],[],.done,endsHere here⟩
  | succ rounds ih =>
    intro s t front here enough ok
    cases words with
    | nil =>
      cases (parseLoopDone here _).symm.trans ok
      exact ⟨[],[],.done,endsHere here⟩
    | cons w words =>
      have short : words.length ≤ rounds := Nat.le_of_succ_le_succ enough
      by_cases dashes : w = [45,45]
      · subst dashes
        cases (parseLoopRemaining here _).symm.trans ok
        exact ⟨[],words,.remaining,remainingEnds here⟩
      · rw [parseLoopWord here dashes] at ok
        cases read : parseWord options w s with
        | error e => simp [read,Except.bind] at ok
        | ok u =>
          rw [read] at ok
          rcases (parseWordOk here).mp read with ⟨plain,fine,rfl⟩ | ⟨given,rest,gives,rfl⟩
          · obtain ⟨given,left,more,ends⟩ := ih here.keep short ok
            exact ⟨given,w :: left,.kept plain fine more,keptEnds ends⟩
          · obtain ⟨later,left,more,ends⟩ := ih (here.after gives.suffix)
              (Nat.le_trans gives.suffix.length_le short) ok
            exact ⟨given ++ later,left,.option gives more,givenEnds ends⟩

theorem Gives.notDashes (gives : Gives options [45,45] words given rest) : False := by
  cases gives with
  | equals shape _ _ => cases shape
  | spaced shape _ _ => cases shape
  | letters shape _ => cases shape

theorem loopReads {words left : List Bytes} {given : List (α × Bytes)} (reads : Reads options words given left) :
    ∀ {rounds : Nat} {s : Parsing α} {front : List Bytes}, At s front words → words.length ≤ rounds →
      ∃ t, parseLoop options rounds s = .ok t ∧ Ends s t front given left := by
  induction reads with
  | done =>
    intro rounds s front here _
    exact ⟨s,parseLoopDone here rounds,endsHere here⟩
  | remaining =>
    intro rounds s front here enough
    obtain ⟨rounds,rfl⟩ := Nat.exists_eq_succ_of_ne_zero (Nat.ne_zero_of_lt enough)
    exact ⟨_,parseLoopRemaining here rounds,remainingEnds here⟩
  | @kept w words given left plain fine more ih =>
    intro rounds s front here enough
    obtain ⟨rounds,rfl⟩ := Nat.exists_eq_succ_of_ne_zero (Nat.ne_zero_of_lt enough)
    have dashes : w ≠ [45,45] := by
      rintro rfl
      cases fine
    obtain ⟨t,ok,ends⟩ := ih here.keep (Nat.le_of_succ_le_succ enough)
    refine ⟨t,?_,keptEnds ends⟩
    rw [parseLoopWord here dashes,(parseWordOk here).mpr (.inl ⟨plain,fine,rfl⟩)]
    exact ok
  | @option w words given rest later left gives more ih =>
    intro rounds s front here enough
    obtain ⟨rounds,rfl⟩ := Nat.exists_eq_succ_of_ne_zero (Nat.ne_zero_of_lt enough)
    have dashes : w ≠ [45,45] := by
      rintro rfl
      exact gives.notDashes
    obtain ⟨t,ok,ends⟩ := ih (here.after gives.suffix)
      (Nat.le_trans gives.suffix.length_le (Nat.le_of_succ_le_succ enough))
    refine ⟨t,?_,givenEnds ends⟩
    rw [parseLoopWord here dashes,(parseWordOk here).mpr (.inr ⟨given,rest,gives,rfl⟩)]
    exact ok

theorem atStart (program : Bytes) (words : List Bytes) :
    At (⟨program :: words,1,1,[]⟩ : Parsing α) [program] words :=
  ⟨rfl,rfl,Nat.le_refl _,Nat.succ_le_succ (Nat.zero_le _)⟩

theorem startEnds {program : Bytes} {left : List Bytes}
    (ends : Ends ⟨program :: words,1,1,[]⟩ t [program] given left) :
    (t.argv.take t.nextKeep,t.sequential) = (program :: left,given) := by
  rw [ends.1,ends.2]
  rfl

theorem parseOfReads (program : Bytes) {left : List Bytes}
    (reads : Reads options words given left) :
    parse options (program :: words) = .ok (program :: left,given) := by
  obtain ⟨t,loop,ends⟩ := loopReads reads (atStart program words) (Nat.le_succ _)
  rw [← startEnds ends]
  simp only [parse,List.length_cons,loop,bind,Except.bind]

theorem parsedIff (program : Bytes) (words : List Bytes) (read : List Bytes × List (α × Bytes)) :
    parse options (program :: words) = .ok read ↔
      ∃ left given, Reads options words given left ∧ read = (program :: left,given) := by
  constructor
  · intro ok
    unfold parse at ok
    cases loop : parseLoop options (program :: words).length ⟨program :: words,1,1,[]⟩ with
    | error e =>
      rw [loop] at ok
      cases ok
    | ok t =>
      obtain ⟨given,left,reads,ends⟩ := loopAccepts _ (atStart program words) (Nat.le_succ _) loop
      rw [loop] at ok
      exact ⟨left,given,reads,(Except.ok.inj ok).symm.trans (startEnds ends)⟩
  · rintro ⟨left,given,reads,rfl⟩
    exact parseOfReads program reads

end Loop

end F3.Cxxopts
