/-!
# Lexemes

The reading of assembly text into lexemes goes in three steps, each on a list.

* Every character has a kind of its own (`Kind.ofChar`), and everything from a comment sign to the
  end of its line takes the kind of the sign (`spread`).
* Neighbours of one kind form a run; a line break stands alone (`runs`).
* Every run is one lexeme, except that a comma is none and a colon none either: it makes a label of
  the lexeme before it (`assemble`).

Line breaks are unified before this (`unifyBreaks`), so that the pair of carriage return and line
feed counts as one character. `join_kinds` ties the two ways to read a text together: under the
kinds of its own characters a text has its own lexemes.
-/

namespace NodeGrid

/-- What a character is on its own, and what a lexeme is as a whole. -/
inductive Kind where
  | blank
  | newline
  | comma
  | comment
  | label
  | number
  | word
  deriving DecidableEq

/-- The kind of a character. A comment and a label are named by the sign that makes them. -/
def Kind.ofChar (c : Char) : Kind :=
  if c = ' ' then .blank
  else if c = '\n' then .newline
  else if c = ',' then .comma
  else if c = '#' then .comment
  else if c = ':' then .label
  else if c = '-' ∨ c.isDigit then .number
  else .word

/-- Writes every line break as a single character. -/
def unifyBreaks : List Char → List Char
  | [] => []
  | '\r' :: '\n' :: rest => '\n' :: unifyBreaks rest
  | c :: rest => c :: unifyBreaks rest

structure Lexeme where
  kind : Kind
  text : String
  deriving DecidableEq

namespace Lexeme

/-! ## Runs -/

section Runs

variable {α : Type}

/-- A comment reaches from its sign to the end of the line. -/
def spread (inComment : Bool) : List (Kind × α) → List (Kind × α)
  | [] => []
  | (kind, a) :: rest =>
    if kind = .newline then (kind, a) :: spread false rest
    else if inComment ∨ kind = .comment then (.comment, a) :: spread true rest
    else (kind, a) :: spread false rest

/-- Puts an element in front of the first run, or in a run of its own. -/
def extend (kind : Kind) (a : α) : List (Kind × List α) → List (Kind × List α)
  | [] => [(kind, [a])]
  | (next, run) :: others =>
    if kind = next ∧ kind ≠ .newline then (kind, a :: run) :: others
    else (kind, [a]) :: (next, run) :: others

/-- The longest runs of one kind; each line break is a run of its own. -/
def runs : List (Kind × α) → List (Kind × List α)
  | [] => []
  | (kind, a) :: rest => extend kind a (runs rest)

end Runs

/-! ## Assembly -/

/-- The lexeme of a run. Blanks and line breaks have one text whatever their length. -/
def ofRun (kind : Kind) (spelling : String) : Lexeme :=
  match kind with
  | .blank => ⟨.blank, " "⟩
  | .newline => ⟨.newline, ""⟩
  | _ => ⟨kind, spelling⟩

/-- Whether the next run is a colon, commas apart. -/
def closesLabel : List (Kind × String) → Bool
  | [] => false
  | (.comma, _) :: rest => closesLabel rest
  | (kind, _) :: _ => kind = .label

/-- The lexemes of a list of runs. -/
def assemble : List (Kind × String) → List Lexeme
  | [] => []
  | (.comma, _) :: rest => assemble rest
  | (.label, _) :: rest => assemble rest
  | (kind, spelling) :: rest =>
    let lexeme := ofRun kind spelling
    (if closesLabel rest then { lexeme with kind := .label } else lexeme) :: assemble rest

/-- The lexemes of a list of elements with their kinds. -/
def scan {α : Type} (spell : List α → String) (elements : List (Kind × α)) : List Lexeme :=
  assemble ((runs (spread false elements)).map fun run => (run.1, spell run.2))

/-! ## Lexemes of a text -/

/-- The kind of each character. -/
def kinds (text : String) : List Kind :=
  (unifyBreaks text.toList).map Kind.ofChar

/-- All lexemes of a text, blanks included. -/
def all (text : String) : List Lexeme :=
  scan String.ofList ((unifyBreaks text.toList).map fun c => (Kind.ofChar c, c))

/-- The lexemes of a text that bear on its meaning. -/
def ofText (text : String) : List Lexeme :=
  (all text).filter (·.kind ≠ .blank)

/-! ## Lexemes under given kinds -/

/-- Gives each kind its character, as far as there are characters. -/
def align : List Kind → List Char → List (Kind × Option Char)
  | [], _ => []
  | kind :: rest, [] => (kind, none) :: align rest []
  | kind :: rest, c :: chars => (kind, some c) :: align rest chars

/-- The text of a run, which is empty if a character is missing. -/
def spellIfWhole (run : List (Option Char)) : String :=
  String.ofList ((run.mapM id).getD [])

/-- The lexemes of a text whose characters are taken to be of the given kinds. -/
def join (kinds : List Kind) (text : String) : List Lexeme :=
  scan spellIfWhole (align kinds (unifyBreaks text.toList))

/-! ## Kinds of the characters themselves -/

section Map

variable {α β : Type}

theorem spread_map (f : α → β) (inComment : Bool) (elements : List (Kind × α)) :
    spread inComment (elements.map (Prod.map id f)) =
      (spread inComment elements).map (Prod.map id f) := by
  induction elements generalizing inComment with
  | nil => rfl
  | cons e rest ih =>
    obtain ⟨kind, a⟩ := e
    simp only [List.map_cons, Prod.map, spread, id]
    split
    · simp [ih]
    · split <;> simp [ih]

theorem extend_map (f : α → β) (kind : Kind) (a : α) (rs : List (Kind × List α)) :
    extend kind (f a) (rs.map (Prod.map id (List.map f))) =
      (extend kind a rs).map (Prod.map id (List.map f)) := by
  cases rs with
  | nil => rfl
  | cons r others =>
    obtain ⟨next, run⟩ := r
    simp only [List.map_cons, Prod.map, extend, id]
    split <;> simp

theorem runs_map (f : α → β) (elements : List (Kind × α)) :
    runs (elements.map (Prod.map id f)) = (runs elements).map (Prod.map id (List.map f)) := by
  induction elements with
  | nil => rfl
  | cons e rest ih =>
    simp only [List.map_cons, Prod.map, runs, id]
    rw [ih, extend_map]

theorem scan_map (f : α → β) (spell : List β → String) (elements : List (Kind × α)) :
    scan spell (elements.map (Prod.map id f)) = scan (spell ∘ List.map f) elements := by
  simp only [scan, spread_map, runs_map, List.map_map]
  rfl

end Map

theorem align_map (f : Char → Kind) (chars : List Char) :
    align (chars.map f) chars = chars.map fun c => (f c, some c) := by
  induction chars with
  | nil => rfl
  | cons c rest ih => simp [align, ih]

theorem spellIfWhole_map_some (run : List Char) :
    spellIfWhole (run.map some) = String.ofList run := by
  have h : (run.map some).mapM id = some run := by
    induction run with
    | nil => rfl
    | cons c rest ih => simp [List.mapM_cons, ih]
  simp [spellIfWhole, h]

/-- Under their own kinds the characters of a text make its own lexemes. -/
theorem join_kinds (text : String) : join (kinds text) text = all text := by
  have hs : spellIfWhole ∘ List.map some = String.ofList := funext spellIfWhole_map_some
  have hm := scan_map some spellIfWhole
    ((unifyBreaks text.toList).map fun c => (Kind.ofChar c, c))
  rw [hs, List.map_map] at hm
  rw [join, kinds, align_map, all, ← hm]
  rfl
end Lexeme

end NodeGrid
