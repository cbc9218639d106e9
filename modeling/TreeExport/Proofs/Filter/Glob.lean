import TreeExport.Filter.Glob
import TreeExport.Proofs.Filter.Regex

/-!
# The grammar of glob patterns

A pattern is read from left to right into tokens: two stars, one star, a question mark, or any other
character, which stands for itself.  A path matches if it splits into pieces, one for each token
(`Glob.Spells`).  `GlobPredicate.accepts_by_grammar`: that is what predicates go by, whatever characters
a pattern holds, with any library that does what is documented.  The replacements that make an
expression of a pattern find just the stars and question marks, since no piece that is put in or escaped
runs into the next (`Glob.replaceAll_pieces`).
-/

namespace TreeExport

namespace Glob

open Text Regex

/-! ## Tokens -/

/-- A token of a pattern. -/
inductive Token
  /-- Two stars: any text without a new line. -/
  | anyText
  /-- One star: any text without a slash. -/
  | anyElement
  /-- A question mark: one character that is no new line. -/
  | one
  /-- The character itself. -/
  | literal (c : Char)
  deriving Repr, DecidableEq

/-- The tokens of a pattern. -/
def tokens : List Char → List Token
  | [] => []
  | '*' :: '*' :: rest => .anyText :: tokens rest
  | '*' :: rest => .anyElement :: tokens rest
  | '?' :: rest => .one :: tokens rest
  | c :: rest => .literal c :: tokens rest

/-- The token may stand for this piece of a path. -/
def Token.Covers : Token → List Char → Prop
  | anyText, piece => '\n' ∉ piece
  | anyElement, piece => '/' ∉ piece
  | one, piece => ∃ c, c ≠ '\n' ∧ piece = [c]
  | literal c, piece => piece = [c]

/-- The text splits into consecutive pieces, one for each token. -/
inductive Spells : List Token → List Char → Prop
  | nil : Spells [] []
  | cons {token : Token} {piece : List Char} {rest : List Token} {text : List Char} :
    token.Covers piece → Spells rest text → Spells (token :: rest) (piece ++ text)

/-- The whole path matches the pattern. -/
def IsMatch (pattern path : String) : Prop :=
  Spells (tokens pattern.toList) path.toList

/-- A star or a question mark never stands for itself. -/
theorem not_literal_of_mem_tokens (cs : List Char) :
    .literal '*' ∉ tokens cs ∧ .literal '?' ∉ tokens cs := by
  fun_induction tokens cs with
  | case1 => exact ⟨List.not_mem_nil, List.not_mem_nil⟩
  | case2 rest ih => simpa using ih
  | case3 rest _ ih => simpa using ih
  | case4 rest ih => simpa using ih
  | case5 c rest _ star question ih =>
    simp only [List.mem_cons, Token.literal.injEq, not_or]
    exact ⟨⟨fun same => star same.symm, ih.1⟩, ⟨fun same => question same.symm, ih.2⟩⟩

/-! ## Replacements -/

variable {x c : Char} {new piece rest more : List Char}

/-- No escaped character begins with one that has a meaning of its own, but for the backslash. -/
theorem head?_escapeChar_ne (special : isMeta x = true) (other : x ≠ '\\') (c : Char)
    (rest : List Char) : (escapeChar c ++ rest).head? ≠ some x := by
  unfold escapeChar
  split
  · exact fun same => other (Option.some.inj same).symm
  · next plain => exact fun same => plain (Option.some.inj same ▸ special)

/-- What is looked for behind a backslash is not found where another character is escaped. -/
theorem replaceAll_escapeChar (other : c ≠ x) (clear : rest.head? ≠ some x) :
    replaceAll ('\\' :: x :: more) new (escapeChar c ++ rest) =
      escapeChar c ++ replaceAll ('\\' :: x :: more) new rest := by
  unfold escapeChar
  split
  · rw [List.cons_append, replaceAll_cons, List.cons_append, List.nil_append, replaceAll_cons]
    · rfl
    · -- a backslash that is escaped is found only if the character follows
      rintro ⟨behind, same⟩
      simp only [List.cons_append, List.cons.injEq] at same
      obtain ⟨rfl, rfl⟩ := same
      exact clear rfl
    · rintro ⟨behind, same⟩
      simp only [List.cons_append, List.cons.injEq] at same
      exact other same.2.1.symm
  · next plain =>
    rw [List.cons_append, List.nil_append, replaceAll_cons]
    · rfl
    · rintro ⟨behind, same⟩
      simp only [List.cons_append, List.cons.injEq] at same
      exact plain (same.1 ▸ rfl)

/-- It is not found where there is no backslash. -/
theorem replaceAll_plain (free : '\\' ∉ piece) :
    replaceAll ('\\' :: more) new (piece ++ rest) =
      piece ++ replaceAll ('\\' :: more) new rest := by
  induction piece with
  | nil => rfl
  | cons c piece ih =>
    obtain ⟨other, others⟩ := List.ne_and_not_mem_of_not_mem_cons free
    rw [List.cons_append, replaceAll_cons, ih others, List.cons_append]
    rintro ⟨behind, same⟩
    simp only [List.cons_append, List.cons.injEq] at same
    exact other same.1

/-- How a piece of an expression fares where an escaped character is replaced. -/
inductive Fares (x : Char) (new : List Char) : List Char → List Char → Prop
  | replaced : Fares x new ['\\', x] new
  | escaped {c : Char} (other : c ≠ x) : Fares x new (escapeChar c) (escapeChar c)
  | plain {first : Char} {more : List Char} (other : first ≠ x) (free : '\\' ∉ first :: more) :
      Fares x new (first :: more) (first :: more)

/-- None of them begins with that character, so none completes what the one before began. -/
theorem Fares.head?_ne (fares : Fares x new piece more) (special : isMeta x = true)
    (other : x ≠ '\\') : (piece ++ rest).head? ≠ some x := by
  cases fares with
  | replaced => exact fun same => other (Option.some.inj same).symm
  | @escaped c => exact head?_escapeChar_ne special other c rest
  | plain differs => exact fun same => differs (Option.some.inj same)

/-- Pieces are replaced one by one. -/
theorem replaceAll_pieces {α : Type} {before after : α → List Char} {parts : List α}
    (special : isMeta x = true) (other : x ≠ '\\')
    (each : ∀ part ∈ parts, Fares x new (before part) (after part)) :
    replaceAll ['\\', x] new (parts.flatMap before) = parts.flatMap after := by
  induction parts with
  | nil => rfl
  | cons part parts ih =>
    obtain ⟨here, later⟩ := List.forall_mem_cons.mp each
    have clear : (parts.flatMap before).head? ≠ some x := by
      cases parts with
      | nil => exact nofun
      | cons next parts => exact (later next List.mem_cons_self).head?_ne special other
    rw [List.flatMap_cons, List.flatMap_cons, ← ih later]
    generalize before part = piece at here
    generalize after part = result at here
    cases here with
    | replaced => exact replaceAll_append _
    | escaped differs => exact replaceAll_escapeChar differs clear
    | plain _ free => exact replaceAll_plain free

/-! ## Expressions -/

/-- A token as it is once the pattern has been escaped. -/
def Token.escaped : Token → List Char
  | anyText => ['\\', '*', '\\', '*']
  | anyElement => ['\\', '*']
  | one => ['\\', '?']
  | literal c => escapeChar c

/-- A token in an expression. -/
def Token.expression : Token → List Char
  | anyText => ['.', '*']
  | anyElement => ['[', '^', '/', ']', '*']
  | one => ['.']
  | literal c => escapeChar c

/-- A token once two stars have been replaced. -/
def Token.afterTexts : Token → List Char
  | anyText => Token.anyText.expression
  | token => token.escaped

/-- A token once all stars have been replaced. -/
def Token.afterStars : Token → List Char
  | one => Token.one.escaped
  | token => token.expression

theorem head?_escape_ne (special : isMeta x = true) (other : x ≠ '\\') (cs : List Char) :
    (escape cs).head? ≠ some x := by
  cases cs with
  | nil => exact nofun
  | cons c cs => exact head?_escapeChar_ne special other c (escape cs)

/-- An escaped character in front is the first of the pattern. -/
theorem exists_of_prefix_escape {cs : List Char} (found : ['\\', x] <+: escape cs) :
    ∃ rest, cs = x :: rest := by
  obtain ⟨behind, same⟩ := found
  cases cs with
  | nil => cases same
  | cons c cs =>
    rw [escape, List.flatMap_cons, escapeChar] at same
    split at same
    · simp only [List.cons_append, List.cons.injEq] at same
      exact ⟨cs, congrArg (· :: cs) same.2.1.symm⟩
    · next plain =>
      simp only [List.cons_append, List.cons.injEq] at same
      exact absurd (same.1 ▸ rfl) plain

/-- Two stars are found just where a pattern that is read from left to right has them. -/
theorem replaceAll_texts (cs : List Char) :
    replaceAll ['\\', '*', '\\', '*'] ['.', '*'] (escape cs) =
      (tokens cs).flatMap Token.afterTexts := by
  fun_induction tokens cs with
  | case1 => rfl
  | case2 rest ih =>
    rw [List.flatMap_cons, ← ih]
    exact replaceAll_append (escape rest)
  | case3 rest single ih =>
    rw [List.flatMap_cons, ← ih]
    -- behind a single star there is no other one, so nothing is found here
    change replaceAll _ _ ('\\' :: '*' :: escape rest) = '\\' :: '*' :: _
    rw [replaceAll_cons, replaceAll_cons]
    · rfl
    · rintro ⟨behind, same⟩
      cases same
    · rintro ⟨behind, same⟩
      simp only [List.cons_append, List.cons.injEq, true_and] at same
      obtain ⟨later, rfl⟩ := exists_of_prefix_escape (x := '*') ⟨behind, same⟩
      exact single later rfl
  | case4 rest ih =>
    rw [List.flatMap_cons, ← ih]
    exact replaceAll_escapeChar (by decide) (head?_escape_ne (by decide) (by decide) rest)
  | case5 c rest _ star question ih =>
    rw [List.flatMap_cons, ← ih]
    exact replaceAll_escapeChar (fun same => star same) (head?_escape_ne (by decide) (by decide) rest)

/-- The replacements turn each token of a pattern into its expression. -/
theorem toList_expression (pattern : String) :
    (Glob.expression (String.ofList (escape pattern.toList))).toList =
      '^' :: ((tokens pattern.toList).flatMap Token.expression ++ ['$']) := by
  obtain ⟨noStar, noQuestion⟩ := not_literal_of_mem_tokens pattern.toList
  have stars : replaceAll ['\\', '*'] ['[', '^', '/', ']', '*']
      ((tokens pattern.toList).flatMap Token.afterTexts) =
        (tokens pattern.toList).flatMap Token.afterStars := by
    refine replaceAll_pieces (by decide) (by decide) fun token member => ?_
    cases token with
    | anyText => exact .plain (by decide) (by decide)
    | anyElement => exact .replaced
    | one => exact .escaped (show '?' ≠ '*' by decide)
    | literal c => exact .escaped fun same => noStar (same ▸ member)
  have questions : replaceAll ['\\', '?'] ['.']
      ((tokens pattern.toList).flatMap Token.afterStars) =
        (tokens pattern.toList).flatMap Token.expression := by
    refine replaceAll_pieces (by decide) (by decide) fun token member => ?_
    cases token with
    | anyText => exact .plain (by decide) (by decide)
    | anyElement => exact .plain (by decide) (by decide)
    | one => exact .replaced
    | literal c => exact .escaped fun same => noQuestion (same ▸ member)
  simp only [Glob.expression, String.toList_ofList, replaceAll_texts, stars, questions]

/-! ## Items -/

/-- What a token allows, and whether it may be repeated. -/
def Token.item : Token → Item
  | anyText => .many .any
  | anyElement => .many (.except '/')
  | one => .once .any
  | literal c => .once (.char c)

/-- The lexemes of a token. -/
def Token.lexemes : Token → List Lexeme
  | anyText => [.set .any, .star]
  | anyElement => [.set (.except '/'), .star]
  | one => [.set .any]
  | literal c => [.set (.char c)]

theorem lexemes_escapeChar (c : Char) (rest : List Char) :
    Regex.lexemes (escapeChar c ++ rest) = (Regex.lexemes rest).map (.set (.char c) :: ·) := by
  unfold escapeChar
  split
  · next special =>
    rw [List.cons_append, List.cons_append, List.nil_append, Regex.lexemes, if_pos special]
  · next plain =>
    rw [List.cons_append, List.nil_append]
    have other {d : Char} (special : isMeta d = true) (same : c = d) : False :=
      plain (same ▸ special)
    rw [Regex.lexemes, if_neg plain]
    · exact other rfl
    · exact other rfl
    · exact other rfl
    · exact other rfl
    · exact fun _ _ same _ => other rfl same
    · exact fun _ _ same _ => other rfl same

theorem lexemes_expression (token : Token) (rest : List Char) :
    Regex.lexemes (token.expression ++ rest) = (Regex.lexemes rest).map (token.lexemes ++ ·) := by
  cases token with
  | anyText =>
    change (Option.map _ (Option.map _ _)) = _
    exact Option.map_map ..
  | anyElement =>
    change (if isMeta '/' = true then none else Option.map _ (Option.map _ _)) = _
    rw [if_neg (by decide)]
    exact Option.map_map ..
  | one => rfl
  | literal c => exact lexemes_escapeChar c rest

theorem lexemes_expressions (parts : List Token) : Regex.lexemes
    ('^' :: (parts.flatMap Token.expression ++ ['$'])) =
      some (.start :: (parts.flatMap Token.lexemes ++ [.stop])) := by
  have after : Regex.lexemes (parts.flatMap Token.expression ++ ['$']) =
      some (parts.flatMap Token.lexemes ++ [.stop]) := by
    induction parts with
    | nil => rfl
    | cons token parts ih =>
      rw [List.flatMap_cons, List.append_assoc, lexemes_expression, ih, List.flatMap_cons,
        List.append_assoc]
      rfl
  rw [Regex.lexemes, after]
  rfl

/-- No token begins with a star, so a character before it is not repeated. -/
theorem items_once (set : CharSet) (parts : List Token) :
    items (.set set :: (parts.flatMap Token.lexemes ++ [.stop])) =
      (items (parts.flatMap Token.lexemes ++ [.stop])).map (.once set :: ·) := by
  cases parts with
  | nil => rfl
  | cons token parts => cases token <;> rfl

theorem items_lexemes (parts : List Token) :
    items (parts.flatMap Token.lexemes ++ [.stop]) = some (parts.map Token.item ++ [.stop]) := by
  induction parts with
  | nil => rfl
  | cons token parts ih =>
    cases token with
    | anyText | anyElement => exact congrArg (Option.map _) ih
    | one => exact (items_once .any parts).trans (congrArg (Option.map _) ih)
    | literal c => exact (items_once (.char c) parts).trans (congrArg (Option.map _) ih)

/-- The expression of a pattern can be read, whatever characters the pattern holds. -/
theorem parse_expression (pattern : String) :
    parse (Glob.expression (String.ofList (escape pattern.toList))) =
      some (.start :: ((tokens pattern.toList).map Token.item ++ [.stop])) := by
  rw [parse, toList_expression, lexemes_expressions]
  exact congrArg (Option.map _) (items_lexemes _)

/-! ## Paths -/

theorem Token.covers_item {token : Token} {before piece later : List Char} :
    token.item.Covers before piece later ↔ token.Covers piece := by
  have without (c : Char) : (∀ d ∈ piece, (d != c) = true) ↔ c ∉ piece := by
    simp only [bne_iff_ne]
    exact ⟨fun each member => each c member rfl, fun absent d member same => absent (same ▸ member)⟩
  cases token with
  | anyText => exact without '\n'
  | anyElement => exact without '/'
  | one => simp only [Token.item, Item.Covers, CharSet.allows, bne_iff_ne, Token.Covers]
  | literal c =>
    simp only [Token.item, Item.Covers, CharSet.allows, beq_iff_eq, Token.Covers, exists_eq_left]

theorem spells_nil_iff {text : List Char} : Spells [] text ↔ text = [] := by
  constructor
  · rintro ⟨⟩
    rfl
  · rintro rfl
    exact .nil

theorem spells_cons_iff {token : Token} {parts : List Token} {text : List Char} :
    Spells (token :: parts) text ↔
      ∃ piece later, text = piece ++ later ∧ token.Covers piece ∧ Spells parts later := by
  constructor
  · rintro ⟨⟩
    next piece later covers spells => exact ⟨piece, later, rfl, covers, spells⟩
  · rintro ⟨piece, later, rfl, covers, spells⟩
    exact .cons covers spells

/-- Up to the end of a text the items of tokens match just what the tokens spell. -/
theorem matchesAt_items {parts : List Token} {before text : List Char} :
    MatchesAt (parts.map Token.item ++ [.stop]) before text ↔ Spells parts text := by
  induction parts generalizing before text with
  | nil =>
    rw [spells_nil_iff]
    exact matchesAt_stop.trans (and_iff_left (matchesAt_nil _ _))
  | cons token parts ih =>
    rw [List.map_cons, List.cons_append, matchesAt_cons, spells_cons_iff]
    simp only [Token.covers_item, ih]

/-- So the expression of a pattern is found in a path just where the path as a whole is spelled. -/
theorem found_iff_isMatch {pattern path : String} :
    Found (.start :: ((tokens pattern.toList).map Token.item ++ [.stop])) path.toList ↔
      IsMatch pattern path := by
  rw [found_iff]
  constructor
  · rintro ⟨before, text, whole, found⟩
    obtain ⟨rfl, found⟩ := matchesAt_start.mp found
    rw [IsMatch, whole]
    exact matchesAt_items.mp found
  · intro isMatch
    exact ⟨[], path.toList, rfl, matchesAt_start.mpr ⟨rfl, matchesAt_items.mpr isMatch⟩⟩

/-! ## Predicates -/

variable {library : Library} {patterns : List String} {compiled : List library.Compiled}

theorem compileAll_cons_eq_ok_iff {pattern : String} :
    compileAll library (pattern :: patterns) = .ok compiled ↔ ∃ made others,
      compile library pattern = some made ∧ compileAll library patterns = .ok others ∧
        compiled = made :: others := by
  rw [compileAll, List.mapM_cons]
  cases compile library pattern with
  | none => exact iff_of_false nofun nofun
  | some made =>
    change (compileAll library patterns).bind (fun others => .ok (made :: others)) = _ ↔ _
    cases compileAll library patterns with
    | error cause => exact iff_of_false nofun nofun
    | ok others =>
      constructor
      · rintro ⟨⟩
        exact ⟨made, others, rfl, rfl, rfl⟩
      · rintro ⟨_, _, ⟨⟩, ⟨⟩, rfl⟩
        rfl

/-- Patterns are all compiled or one of them is refused, whatever their order. -/
theorem exists_compileAll_iff : (∃ compiled, compileAll library patterns = .ok compiled) ↔
    ∀ pattern ∈ patterns, ∃ made, compile library pattern = some made := by
  induction patterns with
  | nil => exact iff_of_true ⟨[], rfl⟩ fun _ none => absurd none List.not_mem_nil
  | cons pattern patterns ih =>
    rw [List.forall_mem_cons, ← ih]
    constructor
    · rintro ⟨_, all⟩
      obtain ⟨made, others, first, rest, -⟩ := compileAll_cons_eq_ok_iff.mp all
      exact ⟨⟨made, first⟩, others, rest⟩
    · rintro ⟨⟨made, first⟩, others, rest⟩
      exact ⟨_, compileAll_cons_eq_ok_iff.mpr ⟨made, others, first, rest, rfl⟩⟩

/-- What the library makes of a pattern matches just the paths that the pattern does. -/
theorem isMatch_compile (documented : library.IsDocumented) {pattern : String}
    {made : library.Compiled} (compiles : compile library pattern = some made) (path : String) :
    library.isMatch made path = true ↔ IsMatch pattern path := by
  rw [compile, documented.escape] at compiles
  exact (documented.isMatch (parse_expression pattern) compiles path).trans found_iff_isMatch

theorem any_isMatch_iff (documented : library.IsDocumented)
    (compiles : compileAll library patterns = .ok compiled) (path : String) :
    compiled.any (library.isMatch · path) = true ↔ ∃ pattern ∈ patterns, IsMatch pattern path := by
  induction patterns generalizing compiled with
  | nil =>
    cases compiles
    exact iff_of_false nofun nofun
  | cons pattern patterns ih =>
    obtain ⟨made, others, first, rest, rfl⟩ := compileAll_cons_eq_ok_iff.mp compiles
    simp only [List.any_cons, Bool.or_eq_true, isMatch_compile documented first path, ih rest,
      List.mem_cons, exists_eq_or_imp]

theorem isEmpty_compileAll (compiles : compileAll library patterns = .ok compiled) :
    compiled.isEmpty = true ↔ patterns = [] := by
  cases patterns with
  | nil =>
    cases compiles
    exact iff_of_true rfl rfl
  | cons pattern patterns =>
    obtain ⟨made, others, -, -, rfl⟩ := compileAll_cons_eq_ok_iff.mp compiles
    exact iff_of_false nofun nofun

end Glob

namespace GlobPredicate

variable {library : Regex.Library} {included excluded : List String}
  {predicate : GlobPredicate library}

/-- A predicate is made of patterns that are all compiled. -/
theorem ofPatterns_eq_ok_iff : ofPatterns library included excluded = .ok predicate ↔
    Glob.compileAll library included = .ok predicate.included ∧
      Glob.compileAll library excluded = .ok predicate.excluded := by
  unfold ofPatterns
  obtain ⟨wanted, unwanted⟩ := predicate
  cases Glob.compileAll library included with
  | error cause => exact iff_of_false nofun nofun
  | ok front =>
    cases Glob.compileAll library excluded with
    | error cause => exact iff_of_false nofun nofun
    | ok back =>
      simp only [bind, Except.bind, pure, Except.pure, Except.ok.injEq, mk.injEq]

theorem exists_ofPatterns_iff : (∃ predicate, ofPatterns library included excluded = .ok predicate) ↔
    ∀ pattern ∈ included ++ excluded, ∃ made, Glob.compile library pattern = some made := by
  simp only [ofPatterns_eq_ok_iff, List.mem_append, or_imp, forall_and,
    ← Glob.exists_compileAll_iff]
  constructor
  · rintro ⟨predicate, front, back⟩
    exact ⟨⟨_, front⟩, ⟨_, back⟩⟩
  · rintro ⟨⟨wanted, front⟩, ⟨unwanted, back⟩⟩
    exact ⟨⟨wanted, unwanted⟩, front, back⟩

theorem accepts_iff (documented : library.IsDocumented)
    (made : ofPatterns library included excluded = .ok predicate) (path : String) :
    predicate.accepts path = true ↔ (∀ pattern ∈ excluded, ¬ Glob.IsMatch pattern path) ∧
      (included = [] ∨ ∃ pattern ∈ included, Glob.IsMatch pattern path) := by
  obtain ⟨front, back⟩ := ofPatterns_eq_ok_iff.mp made
  have out := Glob.any_isMatch_iff documented back path
  unfold accepts
  split
  · next unwanted =>
    refine iff_of_false Bool.false_ne_true fun ⟨kept, _⟩ => ?_
    obtain ⟨pattern, member, isMatch⟩ := out.mp unwanted
    exact kept pattern member isMatch
  · next kept =>
    rw [Bool.or_eq_true, Glob.isEmpty_compileAll front, Glob.any_isMatch_iff documented front path]
    exact (and_iff_right fun pattern member isMatch => kept (out.mpr ⟨pattern, member, isMatch⟩)).symm

/-- With any library that does what is documented, the expression of every pattern can be read, and what
is made of it matches the paths that split into pieces, one for each token of the pattern, and no others.
A predicate keeps the paths that match no excluded pattern and, if there are included ones, one of these;
and whether there is one, and what it keeps, is the same for patterns in another order. -/
theorem accepts_by_grammar (documented : library.IsDocumented) :
    (∀ pattern, (∃ items, Regex.parse (Glob.expression (library.escape pattern)) = some items) ∧
      ∀ made, Glob.compile library pattern = some made → ∀ path,
        library.isMatch made path = true ↔
          Glob.Spells (Glob.tokens pattern.toList) path.toList) ∧
    (∀ included excluded predicate, ofPatterns library included excluded = .ok predicate →
      ∀ path, predicate.accepts path = true ↔
        (∀ pattern ∈ excluded, ¬ Glob.Spells (Glob.tokens pattern.toList) path.toList) ∧
          (included = [] ∨
            ∃ pattern ∈ included, Glob.Spells (Glob.tokens pattern.toList) path.toList)) ∧
    ∀ included excluded included' excluded' : List String, included.Perm included' →
      excluded.Perm excluded' →
        ((∃ predicate, ofPatterns library included excluded = .ok predicate) ↔
          ∃ predicate, ofPatterns library included' excluded' = .ok predicate) ∧
        ∀ predicate predicate', ofPatterns library included excluded = .ok predicate →
          ofPatterns library included' excluded' = .ok predicate' →
            ∀ path, predicate.accepts path = predicate'.accepts path := by
  refine ⟨fun pattern => ⟨?_, fun made compiles path => ?_⟩,
    fun included excluded predicate made path => accepts_iff documented made path,
    fun included excluded included' excluded' front back => ⟨?_, ?_⟩⟩
  · rw [documented.escape]
    exact ⟨_, Glob.parse_expression pattern⟩
  · exact Glob.isMatch_compile documented compiles path
  · simp only [exists_ofPatterns_iff, (front.append back).mem_iff]
  · intro predicate predicate' made made' path
    have none : included = [] ↔ included' = [] := by
      rw [← List.length_eq_zero_iff, front.length_eq, List.length_eq_zero_iff]
    rw [Bool.eq_iff_iff, accepts_iff documented made, accepts_iff documented made', none]
    simp only [front.mem_iff, back.mem_iff]

/-- A pattern with a backslash, two stars and a dollar sign is looked for, and left out, by the library at
hand. -/
theorem backslash_by_grammar : Regex.library.IsDocumented ∧
    ∃ made, Glob.compile Regex.library "\\**$" = some made ∧
      Regex.library.isMatch made "\\a/b$" = true ∧
      ∃ predicate predicate', ofPatterns Regex.library [] ["\\**$", "a"] = .ok predicate ∧
        ofPatterns Regex.library [] ["a", "\\**$"] = .ok predicate' ∧
        predicate.accepts "\\a/b$" = false ∧ predicate'.accepts "\\a/b$" = false := by
  obtain ⟨patterns, predicates, orders⟩ := accepts_by_grammar Regex.library_isDocumented
  obtain ⟨made, compiles⟩ := Option.isSome_iff_exists.mp
    (show (Glob.compile Regex.library "\\**$").isSome = true by decide +kernel)
  have spells : Glob.Spells (Glob.tokens "\\**$".toList) "\\a/b$".toList := by
    have tokens : Glob.tokens "\\**$".toList = [.literal '\\', .anyText, .literal '$'] := by
      decide +kernel
    have text : "\\a/b$".toList = ['\\'] ++ (['a', '/', 'b'] ++ (['$'] ++ [])) := by
      decide +kernel
    rw [tokens, text]
    exact .cons rfl (.cons (show '\n' ∉ ['a', '/', 'b'] by decide) (.cons rfl .nil))
  obtain ⟨predicate, first⟩ : ∃ predicate,
      ofPatterns Regex.library [] ["\\**$", "a"] = .ok predicate := by
    refine exists_ofPatterns_iff.mpr fun pattern member => Option.isSome_iff_exists.mp ?_
    revert pattern
    decide +kernel
  obtain ⟨predicate', second⟩ := (orders [] ["\\**$", "a"] [] ["a", "\\**$"] .nil (.swap ..)).1.mp
    ⟨predicate, first⟩
  have out : predicate.accepts "\\a/b$" = false := by
    refine Bool.eq_false_iff.mpr fun kept => ?_
    exact ((predicates _ _ _ first _).mp kept).1 "\\**$" List.mem_cons_self spells
  have same := (orders _ _ _ _ .nil (.swap ..)).2 predicate predicate' first second "\\a/b$"
  exact ⟨Regex.library_isDocumented, made, compiles,
    ((patterns "\\**$").2 made compiles "\\a/b$").mpr spells, predicate, predicate', first, second,
    out, same ▸ out⟩

end GlobPredicate

end TreeExport
