import Mathlib.Data.List.Basic

set_option autoImplicit false

/- The scan of a command line by `getopt_long` of GNU, which puts the operands behind the options,
and what the options leave in the variables that a program sets from them. -/
namespace GetoptLong

abbrev Word := List Char

inductive HasArg where
  | noArgument
  | requiredArgument
  deriving DecidableEq, Repr

structure LongOption (V : Type) where
  name : Word
  hasArg : HasArg
  val : V
  deriving DecidableEq, Repr

/-- The long options, and the short ones with the characters they are given by. -/
structure Options (V : Type) where
  long : List (LongOption V)
  short : List (Char × HasArg × V)

/-- How the next word is read: as an option or an operand, as the argument of an option, or, behind
`--`, as an operand. -/
inductive Mode (V : Type) where
  | words
  | argument (val : V)
  | operands
  deriving DecidableEq, Repr

/-- What words come to: the mode behind them, the options returned with their arguments, where
`none` stands for `?`, and the operands. -/
structure Scan (V : Type) where
  mode : Mode V
  options : List (Option V × Word)
  operands : List Word
  deriving DecidableEq, Repr

namespace Scan
variable {V : Type}

def append (front back : Scan V) : Scan V :=
  ⟨back.mode, front.options ++ back.options, front.operands ++ back.operands⟩

/-- The options returned when the words end here. An argument that is missing is an error. -/
def returned (s : Scan V) : List (Option V × Word) :=
  match s.mode with
  | .argument _ => s.options ++ [(none, [])]
  | _ => s.options

theorem operands_append (front back : Scan V) :
    (front.append back).operands = front.operands ++ back.operands := rfl

theorem append_assoc (a b c : Scan V) : (a.append b).append c = a.append (b.append c) := by
  unfold append
  rw [List.append_assoc, List.append_assoc]

theorem returned_append (front back : Scan V) :
    (front.append back).returned = front.options ++ back.returned := by
  unfold returned append
  cases back.mode with
  | argument val => exact List.append_assoc _ _ _
  | words => rfl
  | operands => rfl

end Scan

section
variable {V : Type} [DecidableEq V] (o : Options V)

/-- The long option with a name, or else the one that the name abbreviates, if they all agree. -/
def findLong (name : Word) : Option (LongOption V) :=
  match o.long.find? (fun p => p.name == name) with
  | some found => some found
  | none =>
      match o.long.filter (fun p => name.isPrefixOf p.name) with
      | [] => none
      | found :: others =>
          if others.all (fun p => p.hasArg == found.hasArg && p.val == found.val) then some found
          else none

/-- A word behind its `--`. -/
def longOption (text : Word) : Scan V :=
  match findLong o (text.takeWhile (· != '=')), text.dropWhile (· != '=') with
  | none, _ => ⟨.words, [(none, [])], []⟩
  | some found, [] =>
      match found.hasArg with
      | .noArgument => ⟨.words, [(some found.val, [])], []⟩
      | .requiredArgument => ⟨.argument found.val, [], []⟩
  | some found, _ :: value =>
      match found.hasArg with
      | .noArgument => ⟨.words, [(none, [])], []⟩
      | .requiredArgument => ⟨.words, [(some found.val, value)], []⟩

/-- A word behind its `-`. -/
def shortOptions : Word → Scan V
  | [] => ⟨.words, [], []⟩
  | c :: rest =>
      match o.short.find? (fun p => p.1 == c) with
      | none => Scan.append ⟨.words, [(none, [])], []⟩ (shortOptions rest)
      | some (_, .noArgument, val) => Scan.append ⟨.words, [(some val, [])], []⟩ (shortOptions rest)
      | some (_, .requiredArgument, val) =>
          if rest.isEmpty then ⟨.argument val, [], []⟩ else ⟨.words, [(some val, rest)], []⟩

def step : Mode V → Word → Scan V
  | .operands, word => ⟨.operands, [], [word]⟩
  | .argument val, word => ⟨.words, [(some val, word)], []⟩
  | .words, ['-', '-'] => ⟨.operands, [], []⟩
  | .words, '-' :: '-' :: text => longOption o text
  | .words, '-' :: c :: text => shortOptions o (c :: text)
  | .words, word => ⟨.words, [], [word]⟩

def scan : Mode V → List Word → Scan V
  | mode, [] => ⟨mode, [], []⟩
  | mode, word :: words => (step o mode word).append (scan (step o mode word).mode words)

/-- The words behind others are scanned from where those left the scan. -/
theorem scan_append (front back : List Word) (mode : Mode V) :
    scan o mode (front ++ back) =
      (scan o mode front).append (scan o (scan o mode front).mode back) := by
  induction front generalizing mode with
  | nil => rfl
  | cons word words ih =>
      rw [List.cons_append, scan, scan, ih, Scan.append_assoc]
      rfl

omit [DecidableEq V] in
theorem shortOptions_operands (text : Word) : (shortOptions o text).operands = [] := by
  induction text with
  | nil => rfl
  | cons c rest ih =>
      rw [shortOptions]
      split
      · rw [Scan.append, ih]
        rfl
      · rw [Scan.append, ih]
        rfl
      · split
        · rfl
        · rfl

theorem longOption_operands (text : Word) : (longOption o text).operands = [] := by
  unfold longOption
  split
  · rfl
  · split
    · rfl
    · rfl
  · split
    · rfl
    · rfl

/-- No more operands than words. -/
theorem scan_operands_length (words : List Word) (mode : Mode V) :
    (scan o mode words).operands.length ≤ words.length := by
  have single : ∀ mode word, (step o mode word).operands.length ≤ 1 := by
    intro mode word
    unfold step
    split
    · exact Nat.le_refl 1
    · exact Nat.zero_le 1
    · exact Nat.zero_le 1
    · rw [longOption_operands]
      exact Nat.zero_le 1
    · rw [shortOptions_operands]
      exact Nat.zero_le 1
    · exact Nat.le_refl 1
  induction words generalizing mode with
  | nil => exact Nat.le_refl 0
  | cons word words ih =>
      have first := single mode word
      have others := ih (step o mode word).mode
      rw [scan, Scan.append, List.length_append, List.length_cons]
      omega

/-- A word with none of the options in it. -/
def unknown : Word → Bool
  | '-' :: '-' :: text => (findLong o (text.takeWhile (· != '='))).isNone
  | '-' :: text => text.all (fun c => (o.short.find? (fun p => p.1 == c)).isNone)
  | _ => true

/-- No word has one of the options in it, ahead of a bare `--`. -/
def noOption : List Word → Bool
  | [] => true
  | word :: words => word == ['-', '-'] || unknown o word && noOption words

/-- Words that come to no option of the program, and do not end with one that lacks its argument. -/
structure Scan.Optionless (s : Scan V) : Prop where
  options : ∀ option ∈ s.options, option.1 = none
  mode : s.mode = .words ∨ s.mode = .operands

omit [DecidableEq V] in
theorem Scan.Optionless.returned {s : Scan V} (optionless : s.Optionless) :
    ∀ option ∈ s.returned, option.1 = none := by
  unfold Scan.returned
  rcases optionless.mode with words | operands
  · rw [words]
    exact optionless.options
  · rw [operands]
    exact optionless.options

omit [DecidableEq V] in
theorem shortOptions_unknown {text : Word}
    (unknown : text.all (fun c => (o.short.find? (fun p => p.1 == c)).isNone) = true) :
    (shortOptions o text).Optionless ∧ (shortOptions o text).mode = .words := by
  induction text with
  | nil => exact ⟨⟨by simp [shortOptions], Or.inl rfl⟩, rfl⟩
  | cons c rest ih =>
      rw [List.all_cons, Bool.and_eq_true] at unknown
      obtain ⟨optionless, mode⟩ := ih unknown.2
      rw [shortOptions, Option.isNone_iff_eq_none.mp unknown.1]
      refine ⟨⟨?_, Or.inl mode⟩, mode⟩
      intro option member
      rcases List.mem_cons.mp member with first | others
      · rw [first]
      · exact optionless.options option others

/-- Such a word comes to no option, and the next one is read as an option or an operand again. -/
theorem step_unknown {word : Word} (other : word ≠ ['-', '-']) (isUnknown : unknown o word = true) :
    (step o .words word).Optionless ∧ (step o .words word).mode = .words := by
  generalize mode_eq : Mode.words (V := V) = mode
  unfold step
  split
  · cases mode_eq
  · cases mode_eq
  · exact absurd rfl other
  · rename_i text _
    have missing : findLong o (text.takeWhile (· != '=')) = none :=
      Option.isNone_iff_eq_none.mp isUnknown
    unfold longOption
    rw [missing]
    exact ⟨⟨by simp, Or.inl rfl⟩, rfl⟩
  · rename_i c text apart long
    have all : (c :: text).all (fun c => (o.short.find? (fun p => p.1 == c)).isNone) = true := by
      unfold unknown at isUnknown
      split at isUnknown
      · rename_i same
        exact absurd (List.cons.inj (List.cons.inj same).2).1 long
      · rename_i same
        rw [(List.cons.inj same).2]
        exact isUnknown
      · rename_i short
        exact absurd rfl (short (c :: text))
    exact shortOptions_unknown o all
  · exact ⟨⟨by simp, Or.inl rfl⟩, rfl⟩

/-- Behind `--` no word is an option. -/
theorem scan_operands (words : List Word) : scan o .operands words = ⟨.operands, [], words⟩ := by
  induction words with
  | nil => rfl
  | cons word words ih =>
      rw [scan]
      simp only [step, ih]
      rfl

theorem scan_noOption {words : List Word} (none : noOption o words = true) :
    (scan o .words words).Optionless := by
  induction words with
  | nil => exact ⟨by simp [scan], Or.inl rfl⟩
  | cons word words ih =>
      by_cases bare : word = ['-', '-']
      · rw [bare]
        show ((step o .words ['-', '-']).append (scan o .operands words)).Optionless
        rw [scan_operands]
        exact ⟨by simp [Scan.append, step], Or.inr rfl⟩
      · have both : unknown o word = true ∧ noOption o words = true := by
          simpa [noOption, bare] using none
        obtain ⟨first, mode⟩ := step_unknown o bare both.1
        have rest := ih both.2
        rw [scan, mode]
        refine ⟨?_, rest.mode⟩
        intro option member
        rcases List.mem_append.mp member with here | behind
        · exact first.options option here
        · exact rest.options option behind

end

/-- A program that handles options one by one, and takes each one in every state or in none, handles
them all exactly when it takes each. -/
theorem foldlM_returns_iff {V σ ε : Type} {handle : σ → Option V × Word → Except ε σ}
    {takes : Option V × Word → Bool}
    (spec : ∀ s option, (∃ s', handle s option = .ok s') ↔ takes option = true)
    (options : List (Option V × Word)) (s : σ) :
    (∃ s', options.foldlM handle s = .ok s') ↔ options.all takes = true := by
  induction options generalizing s with
  | nil => exact ⟨fun _ => rfl, fun _ => ⟨s, rfl⟩⟩
  | cons option rest ih =>
      rw [List.foldlM_cons, List.all_cons, Bool.and_eq_true, ← spec s option]
      cases head : handle s option with
      | error e =>
          constructor
          · rintro ⟨s', run⟩
            cases run
          · rintro ⟨⟨s', run⟩, _⟩
            cases run
      | ok mid =>
          rw [← ih mid]
          constructor
          · intro returned
            exact ⟨⟨mid, rfl⟩, returned⟩
          · rintro ⟨_, returned⟩
            exact returned

/-- One option sets a variable, from its argument, and all others leave it. -/
def Sets {V σ ε β : Type} [DecidableEq V] (val : V) (get : σ → β) (convert : Word → Except ε β)
    (option : Option V × Word) (s s' : σ) : Prop :=
  if option.1 = some val then convert option.2 = .ok (get s') else get s' = get s

/-- A variable of a program that one option sets. -/
structure Variable {V σ ε : Type} [DecidableEq V] (handle : σ → Option V × Word → Except ε σ)
    (β : Type) where
  val : V
  get : σ → β
  convert : Word → Except ε β
  sets : ∀ s option s', handle s option = .ok s' → Sets val get convert option s s'

namespace Variable
variable {V σ ε β : Type} [DecidableEq V] {handle : σ → Option V × Word → Except ε σ}

/-- The value that options give a variable last. -/
def lastGiven (x : Variable handle β) : List (Option V × Word) → Option β
  | [] => none
  | (val, optarg) :: rest =>
      (lastGiven x rest).or (if val = some x.val then (x.convert optarg).toOption else none)

theorem lastGiven_none (x : Variable handle β) {options : List (Option V × Word)}
    (others : ∀ option ∈ options, option.1 = none) : x.lastGiven options = none := by
  induction options with
  | nil => rfl
  | cons option rest ih =>
      obtain ⟨val, optarg⟩ := option
      have first : val = none := others (val, optarg) List.mem_cons_self
      have behind := ih (fun option member => others option (List.mem_cons_of_mem _ member))
      rw [lastGiven, behind, first]
      rfl

theorem lastGiven_append (x : Variable handle β) (front back : List (Option V × Word)) :
    x.lastGiven (front ++ back) = (x.lastGiven back).or (x.lastGiven front) := by
  induction front with
  | nil => exact Option.or_none.symm
  | cons option rest ih =>
      rw [List.cons_append, lastGiven, ih, Option.or_assoc]
      rfl

/-- Later options override earlier ones. -/
theorem get_foldlM (x : Variable handle β) {options : List (Option V × Word)} {s s' : σ}
    (run : options.foldlM handle s = .ok s') : x.get s' = (x.lastGiven options).getD (x.get s) := by
  induction options generalizing s with
  | nil =>
      rw [← Except.ok.inj run]
      rfl
  | cons option rest ih =>
      obtain ⟨val, optarg⟩ := option
      rw [List.foldlM_cons] at run
      cases head : handle s (val, optarg) with
      | error e =>
          rw [head] at run
          cases run
      | ok mid =>
          rw [head] at run
          rw [ih run, lastGiven]
          have sets := x.sets s (val, optarg) mid head
          unfold Sets at sets
          cases x.lastGiven rest with
          | some later => rfl
          | none =>
              by_cases same : val = some x.val
              · rw [if_pos same] at sets ⊢
                rw [sets]
                rfl
              · rw [if_neg same] at sets ⊢
                exact sets

end Variable

end GetoptLong
