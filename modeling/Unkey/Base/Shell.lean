import Mathlib.Data.List.Basic

/-!
# Sourcing a file in a POSIX shell

A machine reads the text byte by byte: words with their quoting, comments, and the ends of commands.
-/

namespace Unkey.Base.Shell

abbrev Bytes := List UInt8

def byte (c : Char) : UInt8 := c.toNat.toUInt8

/-! ### Bytes -/

def isAlpha (b : UInt8) : Bool :=
  (byte 'A' ≤ b && b ≤ byte 'Z') || (byte 'a' ≤ b && b ≤ byte 'z')

def isDigit (b : UInt8) : Bool := byte '0' ≤ b && b ≤ byte '9'

def isNameByte (b : UInt8) : Bool := isAlpha b || isDigit b || b == byte '_'

def isName : Bytes → Bool
  | [] => false
  | b :: rest => !isDigit b && (b :: rest).all isNameByte

inductive Role where
  | nul
  | blank
  | newline
  | separator
  | operator
  | backslash
  | singleQuote
  | doubleQuote
  | dollar
  | backquote
  | hash
  | plain
  deriving DecidableEq

def role (b : UInt8) : Role :=
  if b = 0 then .nul
  else if b = byte ' ' ∨ b = byte '\t' then .blank
  else if b = byte '\n' then .newline
  else if b = byte ';' then .separator
  else if b ∈ [byte '&', byte '|', byte '<', byte '>', byte '(', byte ')'] then .operator
  else if b = byte '\\' then .backslash
  else if b = byte '\'' then .singleQuote
  else if b = byte '"' then .doubleQuote
  else if b = byte '$' then .dollar
  else if b = byte '`' then .backquote
  else if b = byte '#' then .hash
  else .plain

def isEscapable (b : UInt8) : Bool :=
  b ∈ [byte '$', byte '`', byte '"', byte '\\']

def beginsParameter (b : UInt8) : Bool :=
  isNameByte b || b ∈ [byte '{', byte '@', byte '*', byte '#', byte '?', byte '-', byte '$', byte '!']

/-! ### Words -/

structure Piece where
  byte : UInt8
  quoted : Bool
  deriving DecidableEq

abbrev Word := List Piece

def Word.bytes (w : Word) : Bytes := w.map Piece.byte

def literal (v : Bytes) : Word := v.map fun b => ⟨b, false⟩

def quoted (v : Bytes) : Word := v.map fun b => ⟨b, true⟩

inductive Expansion where
  | tilde
  | parameter
  | command
  | pathname
  deriving DecidableEq

inductive Event where
  | assign (name value : Bytes)
  | run (words : List Bytes)
  | expand (kind : Expansion)
  | operator (b : UInt8)
  | unterminated
  deriving DecidableEq

def inName (p : Piece) : Bool := !p.quoted && isNameByte p.byte

def Word.assignment (w : Word) : Option (Bytes × Word) :=
  match w.dropWhile inName with
  | [] => none
  | p :: value =>
    let name := Word.bytes (w.takeWhile inName)
    if p = ⟨Shell.byte '=', false⟩ ∧ isName name = true then some (name, value) else none

def hasTilde : (fresh : Bool) → Word → Bool
  | _, [] => false
  | fresh, p :: rest =>
    (fresh && p == ⟨byte '~', false⟩) || hasTilde (p == ⟨byte ':', false⟩) rest

def Word.expansions (w : Word) : List Event :=
  (if w.head? = some ⟨Shell.byte '~', false⟩ then [.expand .tilde] else []) ++
    if w.any (fun p => !p.quoted && p.byte ∈ [Shell.byte '*', Shell.byte '?', Shell.byte '['])
    then [.expand .pathname] else []

def perform (a : Bytes × Word) : List Event :=
  (if hasTilde true a.2 then [.expand .tilde] else []) ++ [.assign a.1 a.2.bytes]

def command (words : List Word) : List Event :=
  match words.dropWhile (·.assignment.isSome) with
  | [] => (words.filterMap Word.assignment).flatMap perform
  -- assignments in front of a command word are for its environment only
  | rest => rest.flatMap Word.expansions ++ [.run (rest.map Word.bytes)]

/-! ### The machine -/

inductive Mode where
  | blank
  | word
  | escape (inWord : Bool)
  | single
  | double
  | doubleEscape
  | dollar (inQuotes : Bool)
  | comment
  | halted
  deriving DecidableEq

structure State where
  mode : Mode
  word : Word
  words : List Word
  events : List Event
  deriving DecidableEq

namespace State

def ready (events : List Event) : State := ⟨.blank, [], [], events⟩

def push (s : State) (mode : Mode) (p : Piece) : State :=
  { s with mode := mode, word := s.word ++ [p] }

def endWord (s : State) : State :=
  { s with mode := .blank, word := [], words := s.words ++ [s.word] }

def endCommand (s : State) : State := ready (s.events ++ command s.words)

def halt (s : State) (e : Event) : State := ⟨.halted, [], [], s.events ++ [e]⟩

def unquoted (s : State) (b : UInt8) : State :=
  match role b with
  | .backslash => { s with mode := .escape (s.mode == .word) }
  | .singleQuote => { s with mode := .single }
  | .doubleQuote => { s with mode := .double }
  | .dollar => { s with mode := .dollar false }
  | .backquote => s.halt (.expand .command)
  | .operator => s.halt (.operator b)
  -- a hash sign inside a word is an ordinary byte
  | _ => s.push .word ⟨b, false⟩

def stepBlank (s : State) (b : UInt8) : State :=
  match role b with
  | .blank => s
  | .newline | .separator => s.endCommand
  | .hash => { s with mode := .comment }
  | _ => s.unquoted b

def stepWord (s : State) (b : UInt8) : State :=
  match role b with
  | .blank => s.endWord
  | .newline | .separator => s.endWord.endCommand
  | _ => s.unquoted b

def stepDouble (s : State) (b : UInt8) : State :=
  if b = byte '"' then { s with mode := .word }
  else if b = byte '\\' then { s with mode := .doubleEscape }
  else if b = byte '$' then { s with mode := .dollar true }
  else if b = byte '`' then s.halt (.expand .command)
  else s.push .double ⟨b, true⟩

def stepDollar (s : State) (inQuotes : Bool) (b : UInt8) : State :=
  if b = byte '(' then s.halt (.expand .command)
  else if beginsParameter b then s.halt (.expand .parameter)
  -- the dollar sign stands for itself
  else if inQuotes then (s.push .double ⟨byte '$', true⟩).stepDouble b
  else (s.push .word ⟨byte '$', false⟩).stepWord b

def step (s : State) (b : UInt8) : State :=
  if b = 0 then s
  else
    match s.mode with
    | .blank => s.stepBlank b
    | .word => s.stepWord b
    | .escape inWord =>
      -- the line goes on
      if b = byte '\n' then { s with mode := if inWord then .word else .blank }
      else s.push .word ⟨b, true⟩
    | .single => if b = byte '\'' then { s with mode := .word } else s.push .single ⟨b, true⟩
    | .double => s.stepDouble b
    | .doubleEscape =>
      if b = byte '\n' then { s with mode := .double }
      else if isEscapable b then s.push .double ⟨b, true⟩
      -- in front of any other byte the backslash stands for itself
      else (s.push .double ⟨byte '\\', true⟩).push .double ⟨b, true⟩
    | .dollar inQuotes => s.stepDollar inQuotes b
    | .comment => if b = byte '\n' then s.endCommand else s
    | .halted => s

def finish (s : State) : List Event :=
  match s.mode with
  | .blank | .comment => s.endCommand.events
  | .word => s.endWord.endCommand.events
  | .dollar false => (s.push .word ⟨byte '$', false⟩).endWord.endCommand.events
  | .halted => s.events
  | .escape _ | .single | .double | .doubleEscape | .dollar true => s.events ++ [.unterminated]

end State

def source (text : Bytes) : List Event := (text.foldl State.step (.ready [])).finish

example : source ("A=1 B='x y'; C=\"\\$z\" # end\n".toList.map byte) =
    [.assign [byte 'A'] [byte '1'], .assign [byte 'B'] ("x y".toList.map byte),
      .assign [byte 'C'] ("$z".toList.map byte)] := by
  decide +kernel

example : source ("A=$(id)\n".toList.map byte) = [.expand .command] := by decide +kernel

/-! ### Reading a part of a word -/

def Reads (text : Bytes) (pieces : Word) : Prop :=
  ∀ w words events, text.foldl State.step ⟨.word, w, words, events⟩ =
    ⟨.word, w ++ pieces, words, events⟩

def ReadsQuoted (text : Bytes) (pieces : Word) : Prop :=
  ∀ w words events, text.foldl State.step ⟨.double, w, words, events⟩ =
    ⟨.double, w ++ pieces, words, events⟩

variable {b : UInt8}

theorem ne_zero_of_role (h : role b ≠ .nul) : b ≠ 0 := by
  intro hb
  exact h (by rw [role, if_pos hb])

theorem step_word_plain (h : role b = .plain) (w : Word) (words : List Word) (events : List Event) :
    State.step ⟨.word, w, words, events⟩ b = ⟨.word, w ++ [⟨b, false⟩], words, events⟩ := by
  have h0 : b ≠ 0 := ne_zero_of_role (by rw [h]; decide)
  simp only [State.step, if_neg h0, State.stepWord, State.unquoted, h, State.push]

theorem step_blank_plain (h : role b = .plain) (words : List Word) (events : List Event) :
    State.step ⟨.blank, [], words, events⟩ b = ⟨.word, [⟨b, false⟩], words, events⟩ := by
  have h0 : b ≠ 0 := ne_zero_of_role (by rw [h]; decide)
  simp only [State.step, if_neg h0, State.stepBlank, State.unquoted, h, State.push, List.nil_append]

theorem reads_plain {v : Bytes} (h : ∀ b ∈ v, role b = .plain) : Reads v (literal v) := by
  intro w words events
  induction v generalizing w with
  | nil => exact congrArg (State.mk _ · _ _) (List.append_nil w).symm
  | cons b v ih =>
    rw [List.forall_mem_cons] at h
    rw [List.foldl_cons, step_word_plain h.1, ih h.2, List.append_assoc]
    rfl

theorem step_single (h0 : b ≠ 0) (hquote : b ≠ byte '\'') (w : Word)
    (words : List Word) (events : List Event) :
    State.step ⟨.single, w, words, events⟩ b = ⟨.single, w ++ [⟨b, true⟩], words, events⟩ := by
  simp only [State.step, if_neg h0, if_neg hquote, State.push]

theorem foldl_single {v : Bytes} (h0 : 0 ∉ v) (hquote : byte '\'' ∉ v) (w : Word)
    (words : List Word) (events : List Event) :
    v.foldl State.step ⟨.single, w, words, events⟩ = ⟨.single, w ++ quoted v, words, events⟩ := by
  induction v generalizing w with
  | nil => exact congrArg (State.mk _ · _ _) (List.append_nil w).symm
  | cons b v ih =>
    rw [List.mem_cons, not_or] at h0 hquote
    rw [List.foldl_cons, step_single (Ne.symm h0.1) (Ne.symm hquote.1), ih h0.2 hquote.2,
      List.append_assoc]
    rfl

theorem reads_single {v : Bytes} (h0 : 0 ∉ v) (hquote : byte '\'' ∉ v) :
    Reads (byte '\'' :: v ++ [byte '\'']) (quoted v) := by
  intro w words events
  have hopen : State.step ⟨.word, w, words, events⟩ (byte '\'') = ⟨.single, w, words, events⟩ := rfl
  have hclose : ∀ w, State.step ⟨.single, w, words, events⟩ (byte '\'') =
      ⟨.word, w, words, events⟩ := fun _ => rfl
  rw [List.cons_append, List.foldl_cons, hopen, List.foldl_append, foldl_single h0 hquote,
    List.foldl_cons, hclose, List.foldl_nil]

theorem ReadsQuoted.append {text text' : Bytes} {pieces pieces' : Word}
    (h : ReadsQuoted text pieces) (h' : ReadsQuoted text' pieces') :
    ReadsQuoted (text ++ text') (pieces ++ pieces') := by
  intro w words events
  rw [List.foldl_append, h, h', List.append_assoc]

theorem readsQuoted_nil : ReadsQuoted [] [] := by
  intro w words events
  exact congrArg (State.mk _ · _ _) (List.append_nil w).symm

theorem readsQuoted_escaped (h : isEscapable b = true) :
    ReadsQuoted [byte '\\', b] (quoted [b]) := by
  intro w words events
  have hslash : State.step ⟨.double, w, words, events⟩ (byte '\\') =
      ⟨.doubleEscape, w, words, events⟩ := rfl
  have hbytes : b ≠ 0 ∧ b ≠ byte '\n' := by
    constructor <;> rintro rfl <;> exact absurd h (by decide)
  rw [List.foldl_cons, hslash, List.foldl_cons, List.foldl_nil]
  simp only [State.step, if_neg hbytes.1, if_neg hbytes.2, h, if_true, State.push]
  rfl

theorem readsQuoted_plain (h0 : b ≠ 0) (h : isEscapable b = false) :
    ReadsQuoted [b] (quoted [b]) := by
  intro w words events
  obtain ⟨hdollar, hbackquote, hquote, hslash⟩ :
      b ≠ byte '$' ∧ b ≠ byte '`' ∧ b ≠ byte '"' ∧ b ≠ byte '\\' := by
    simpa [isEscapable] using h
  rw [List.foldl_cons, List.foldl_nil]
  simp only [State.step, if_neg h0, State.stepDouble, if_neg hquote, if_neg hslash, if_neg hdollar,
    if_neg hbackquote, State.push]
  rfl

theorem ReadsQuoted.reads {text : Bytes} {pieces : Word} (h : ReadsQuoted text pieces) :
    Reads (byte '"' :: text ++ [byte '"']) pieces := by
  intro w words events
  have hopen : State.step ⟨.word, w, words, events⟩ (byte '"') = ⟨.double, w, words, events⟩ := rfl
  have hclose : ∀ w, State.step ⟨.double, w, words, events⟩ (byte '"') =
      ⟨.word, w, words, events⟩ := fun _ => rfl
  rw [List.cons_append, List.foldl_cons, hopen, List.foldl_append, h, List.foldl_cons, hclose,
    List.foldl_nil]

/-! ### Reading an assignment -/

theorem forall_byte {p : UInt8 → Bool} (h : (List.range 256).all (fun n => p n.toUInt8) = true)
    (b : UInt8) : p b = true := by
  have hb := List.all_eq_true.mp h b.toNat (List.mem_range.mpr b.toNat_lt)
  rwa [Nat.toUInt8_eq, UInt8.ofNat_toNat] at hb

theorem role_of_isNameByte (h : isNameByte b = true) : role b = .plain := by
  have hall := forall_byte (p := fun b => !isNameByte b || role b == .plain) (by decide +kernel) b
  simpa [h] using hall

theorem isNameByte_of_isName {name : Bytes} (h : isName name = true) :
    ∀ b ∈ name, isNameByte b = true := by
  cases name with
  | nil => cases h
  | cons c rest =>
    simp only [isName, Bool.and_eq_true, List.all_eq_true] at h
    exact h.2

theorem assignment_append {name : Bytes} (h : isName name = true) (value : Word) :
    Word.assignment (literal name ++ ⟨byte '=', false⟩ :: value) = some (name, value) := by
  have hall : ∀ p ∈ literal name, inName p = true := by
    intro p hp
    obtain ⟨b, hb, rfl⟩ := List.mem_map.mp hp
    simpa [inName] using isNameByte_of_isName h b hb
  have hequals : inName ⟨byte '=', false⟩ = false := by decide
  have hbytes : Word.bytes (literal name) = name := by
    rw [Word.bytes, literal, List.map_map]
    exact List.map_id name
  unfold Word.assignment
  rw [List.dropWhile_append_of_pos hall, List.takeWhile_append_of_pos hall,
    List.dropWhile_cons_of_neg (by simp [hequals]), List.takeWhile_cons_of_neg (by simp [hequals]),
    List.append_nil, hbytes]
  simp [h]

theorem foldl_assignment {name text : Bytes} {value : Word} (hname : isName name = true)
    (hreads : Reads text value) (htilde : hasTilde true value = false) (events : List Event) :
    (name ++ byte '=' :: text ++ [byte '\n']).foldl State.step (.ready events) =
      .ready (events ++ [.assign name value.bytes]) := by
  have hplain : ∀ b ∈ name, role b = .plain := fun b hb =>
    role_of_isNameByte (isNameByte_of_isName hname b hb)
  -- the first byte begins the word, the others go on with it
  have hbegin : name.foldl State.step (.ready events) = ⟨.word, literal name, [], events⟩ := by
    cases name with
    | nil => cases hname
    | cons c rest =>
      rw [List.forall_mem_cons] at hplain
      rw [List.foldl_cons, State.ready, step_blank_plain hplain.1, reads_plain hplain.2]
      rfl
  have hequals : ∀ w, State.step ⟨.word, w, [], events⟩ (byte '=') =
      ⟨.word, w ++ [⟨byte '=', false⟩], [], events⟩ := fun w => step_word_plain (by decide) w _ _
  have hnewline : ∀ w, State.step ⟨.word, w, [], events⟩ (byte '\n') =
      .ready (events ++ command [w]) := fun _ => rfl
  have hcommand : command [literal name ++ ⟨byte '=', false⟩ :: value] =
      [.assign name value.bytes] := by
    simp [command, assignment_append hname, perform, htilde]
  simp only [List.foldl_append, List.foldl_cons, List.foldl_nil, hbegin, hequals]
  rw [hreads, hnewline, List.append_assoc, List.singleton_append, hcommand]

theorem hasTilde_eq_false {w : Word} (h : ⟨byte '~', false⟩ ∉ w) (fresh : Bool) :
    hasTilde fresh w = false := by
  induction w generalizing fresh with
  | nil => rfl
  | cons p w ih =>
    rw [List.mem_cons, not_or] at h
    rw [hasTilde, ih h.2, Bool.or_false]
    simp [Ne.symm h.1]

end Unkey.Base.Shell
