import TreeText.SExpr

/-!
# Reading the text of an S-expression back

`SExpr.render` forgets nothing that the text of a *clean* expression has to tell: `SExpr.read?`
gives the expression back. An expression is clean when the names in it cannot be taken for other
tokens; strings are never restricted.

The reader has two halves. `tokens?` cuts a text into parentheses and atoms, and `step?` nests them
again with a stack of open lists. So the round trip has two halves as well. `tokens?_put` says that
the text of an expression, in front of any text that ends a bare word, is cut into exactly the
expression's own tokens: here escaping makes a string end at its closing quote, and cleanness makes
every name end where it should. `foldlM_tokens` says that these tokens put the expression on top of
the stack, whatever is below.
-/

namespace TreeText.SExpr

/-! ## Clean expressions -/

/-- A character that a bare word goes on with: no space and no parenthesis. -/
def isWordChar (c : Char) : Bool := c != ' ' && c != '(' && c != ')'

/-- A character that a symbol must not begin with, because other tokens do. -/
def isSigil (c : Char) : Bool := c == '"' || c == ':' || c == '#'

mutual

/-- No name in the expression can be taken for another token. -/
def Clean : SExpr → Prop
  | .nil => True
  | .symbol name =>
    name ≠ "" ∧ name ≠ "nil" ∧ (∀ c ∈ name.toList, isWordChar c) ∧
      ∀ c ∈ name.toList.head?, !isSigil c
  | .keyword name => ∀ c ∈ name.toList, isWordChar c
  | .str _ => True
  | .placeholder kind => '>' ∉ kind.toList
  | .list items => CleanItems items

/-- `Clean` of each item. -/
def CleanItems : List SExpr → Prop
  | [] => True
  | item :: items => Clean item ∧ CleanItems items

end

/-! ## Tokens -/

/-- What the text of an expression is made of. -/
inductive Token where
  | opening
  | closing
  /-- An expression that is no list. -/
  | atom (expr : SExpr)

mutual

/-- The tokens of an expression. -/
def tokens : SExpr → List Token
  | .list items => .opening :: (tokensOfItems items ++ [.closing])
  | expr => [.atom expr]

/-- The tokens of items one after the other. -/
def tokensOfItems : List SExpr → List Token
  | [] => []
  | item :: items => tokens item ++ tokensOfItems items

end

/-- The text up to the closing quote, and what follows it. -/
def unquoted? : List Char → Option (List Char × List Char)
  | [] => none
  | '"' :: rest => some ([], rest)
  | '\\' :: c :: rest => (unquoted? rest).map fun (text, rest) => (c :: text, rest)
  | c :: rest => (unquoted? rest).map fun (text, rest) => (c :: text, rest)

/-- The kind that stands between angle brackets, and what follows them. -/
def angled? : List Char → Option (List Char × List Char)
  | '<' :: text =>
    match text.dropWhile (· != '>') with
    | _ :: rest => some (text.takeWhile (· != '>'), rest)
    | [] => none
  | _ => none

/-- What a bare word means. -/
def ofWord (word : List Char) : SExpr :=
  if word = "nil".toList then .nil else .symbol (String.ofList word)

/-- The atom that begins with `c`, and what follows it. -/
def atom? (c : Char) (text : List Char) : Option (SExpr × List Char) :=
  if c = '"' then (unquoted? text).map fun (inner, rest) => (.str (String.ofList inner), rest)
  else if c = ':' then
    some (.keyword (String.ofList (text.takeWhile isWordChar)), text.dropWhile isWordChar)
  else if c = '#' then
    (angled? text).map fun (kind, rest) => (.placeholder (String.ofList kind), rest)
  else some (ofWord (c :: text.takeWhile isWordChar), text.dropWhile isWordChar)

theorem unquoted?_length {text inner rest : List Char} (h : unquoted? text = some (inner, rest)) :
    rest.length ≤ text.length := by
  fun_induction unquoted? text generalizing inner rest with
  | case1 => simp at h
  | case2 tail =>
    obtain ⟨-, rfl⟩ := Prod.mk.inj (Option.some.inj h)
    simp
  | case3 c tail ih | case4 c tail _ _ ih =>
    obtain ⟨⟨inner', rest'⟩, hread, heq⟩ := Option.map_eq_some_iff.mp h
    obtain ⟨-, rfl⟩ := Prod.mk.inj heq
    have := ih hread
    simp only [List.length_cons]
    omega

theorem angled?_length {text kind rest : List Char} (h : angled? text = some (kind, rest)) :
    rest.length ≤ text.length := by
  unfold angled? at h
  split at h
  next tail =>
    split at h
    next c after hdrop =>
      obtain ⟨-, rfl⟩ := Prod.mk.inj (Option.some.inj h)
      have hle : (tail.dropWhile (· != '>')).length ≤ tail.length :=
        (List.dropWhile_sublist _).length_le
      rw [hdrop, List.length_cons] at hle
      rw [List.length_cons]
      omega
    next => cases h
  next => cases h

/-- An atom takes nothing back. -/
theorem atom?_length {c : Char} {text rest : List Char} {expr : SExpr}
    (h : atom? c text = some (expr, rest)) : rest.length ≤ text.length := by
  unfold atom? at h
  split at h
  · obtain ⟨⟨inner, rest'⟩, hread, heq⟩ := Option.map_eq_some_iff.mp h
    obtain ⟨-, rfl⟩ := Prod.mk.inj heq
    exact unquoted?_length hread
  · split at h
    · obtain ⟨-, rfl⟩ := Prod.mk.inj (Option.some.inj h)
      exact (List.dropWhile_sublist _).length_le
    · split at h
      · obtain ⟨⟨kind, rest'⟩, hread, heq⟩ := Option.map_eq_some_iff.mp h
        obtain ⟨-, rfl⟩ := Prod.mk.inj heq
        exact angled?_length hread
      · obtain ⟨-, rfl⟩ := Prod.mk.inj (Option.some.inj h)
        exact (List.dropWhile_sublist _).length_le

/-- Cuts a text into tokens; spaces only part them. -/
def tokens? : List Char → Option (List Token)
  | [] => some []
  | c :: text =>
    if c = ' ' then tokens? text
    else if c = '(' then (tokens? text).map (.opening :: ·)
    else if c = ')' then (tokens? text).map (.closing :: ·)
    else
      match _h : atom? c text with
      | some (expr, rest) => (tokens? rest).map (.atom expr :: ·)
      | none => none
termination_by text => text.length
decreasing_by
  · simp
  · simp
  · simp
  · have := atom?_length _h
    simp only [List.length_cons]
    omega

/-! ## Nesting -/

/-- Takes the next token into account. The stack has the items of each open list, the innermost
list first and in each list the last item first. -/
def step? : List (List SExpr) → Token → Option (List (List SExpr))
  | items :: outer, .atom expr => some ((expr :: items) :: outer)
  | outer, .opening => some ([] :: outer)
  | items :: before :: outer, .closing => some ((.list items.reverse :: before) :: outer)
  | _, _ => none

/-- The expression that a text shows. -/
def read? (text : String) : Option SExpr := do
  match ← (← tokens? text.toList).foldlM step? [[]] with
  | [[expr]] => some expr
  | _ => none

/-! ## Each token ends where it should -/

/-- Whether a bare word in front of `rest` ends there. -/
def EndsWord (rest : List Char) : Prop := ∀ c ∈ rest.head?, isWordChar c = false

/-- Escaping makes a string end at its closing quote, whatever the string and what follows. -/
theorem unquoted?_escaped (text rest : List Char) :
    unquoted? (escaped text ++ '"' :: rest) = some (text, rest) := by
  induction text with
  | nil => rfl
  | cons c text ih =>
    by_cases hc : c = '\\' ∨ c = '"'
    · -- The backslash in front is dropped, and what it protects is taken as it is.
      rw [escaped, if_pos hc, List.cons_append, List.cons_append, unquoted?, ih]
      rfl
    · obtain ⟨hslash, hquote⟩ := not_or.mp hc
      rw [escaped, if_neg hc, List.cons_append, unquoted?, ih]
      · rfl
      · exact hquote
      · intro c' tail hslash'
        exact absurd hslash' hslash

theorem takeWhile_word {word rest : List Char} (hword : ∀ c ∈ word, isWordChar c)
    (hrest : EndsWord rest) : (word ++ rest).takeWhile isWordChar = word := by
  rw [List.takeWhile_append_of_pos hword]
  cases rest with
  | nil => simp
  | cons c rest =>
    have hc : ¬ isWordChar c = true := by simp [hrest c rfl]
    rw [List.takeWhile_cons_of_neg hc, List.append_nil]

theorem dropWhile_word {word rest : List Char} (hword : ∀ c ∈ word, isWordChar c)
    (hrest : EndsWord rest) : (word ++ rest).dropWhile isWordChar = rest := by
  rw [List.dropWhile_append_of_pos hword]
  cases rest with
  | nil => rfl
  | cons c rest =>
    have hc : ¬ isWordChar c = true := by simp [hrest c rfl]
    rw [List.dropWhile_cons_of_neg hc]

theorem angled?_kind {kind : List Char} (hkind : '>' ∉ kind) (rest : List Char) :
    angled? ('<' :: (kind ++ '>' :: rest)) = some (kind, rest) := by
  have hall : ∀ c ∈ kind, (c != '>') = true := by
    intro c hc
    rw [bne_iff_ne]
    rintro rfl
    exact hkind hc
  have htake : (kind ++ '>' :: rest).takeWhile (· != '>') = kind := by
    rw [List.takeWhile_append_of_pos hall, List.takeWhile_cons_of_neg (by simp), List.append_nil]
  have hdrop : (kind ++ '>' :: rest).dropWhile (· != '>') = '>' :: rest := by
    rw [List.dropWhile_append_of_pos hall, List.dropWhile_cons_of_neg (by simp)]
  rw [angled?, hdrop, htake]

/-- A character of a bare word begins an atom. -/
theorem tokens?_cons {c : Char} (hc : isWordChar c) {text rest : List Char} {expr : SExpr}
    (h : atom? c text = some (expr, rest)) :
    tokens? (c :: text) = (tokens? rest).map (.atom expr :: ·) := by
  simp only [isWordChar, Bool.and_eq_true, bne_iff_ne] at hc
  rw [tokens?, if_neg hc.1.1, if_neg hc.1.2, if_neg hc.2]
  split
  next expr' rest' h' =>
    obtain ⟨rfl, rfl⟩ := Prod.mk.inj (Option.some.inj (h.symm.trans h'))
    rfl
  next h' => rw [h] at h'; cases h'

/-- A bare word that begins with no sigil is read as a whole. -/
theorem tokens?_word {word rest : List Char} (hne : word ≠ []) (hword : ∀ c ∈ word, isWordChar c)
    (hsigil : ∀ c ∈ word.head?, !isSigil c) (hrest : EndsWord rest) :
    tokens? (word ++ rest) = (tokens? rest).map (.atom (ofWord word) :: ·) := by
  cases word with
  | nil => exact absurd rfl hne
  | cons c word =>
    have hc : (c = '"' ∨ c = ':') ∨ c = '#' → False := by simpa [isSigil] using hsigil c rfl
    have htail : ∀ d ∈ word, isWordChar d := fun d hd => hword d (List.mem_cons_of_mem _ hd)
    rw [List.cons_append]
    apply tokens?_cons (hword c List.mem_cons_self)
    rw [atom?, if_neg fun h => hc (.inl (.inl h)), if_neg fun h => hc (.inl (.inr h)),
      if_neg fun h => hc (.inr h), takeWhile_word htail hrest, dropWhile_word htail hrest]

/-! ## The round trip -/

theorem endsWord_putTail (items : List SExpr) (rest : List Char) :
    EndsWord (putTail items (')' :: rest)) := by
  cases items <;> simp [putTail, EndsWord, isWordChar]

mutual

/-- The text of a clean expression is cut into the tokens of the expression, and what follows it
is cut by itself. -/
theorem tokens?_put : ∀ (expr : SExpr), expr.Clean → ∀ rest : List Char, EndsWord rest →
    tokens? (expr.put rest) = (tokens? rest).map (expr.tokens ++ ·)
  | .nil, _, rest, hrest => by
    have hword : ∀ c ∈ "nil".toList, isWordChar c := by simp [isWordChar]
    have hsigil : ∀ c ∈ "nil".toList.head?, !isSigil c := by simp [isSigil]
    rw [put, tokens?_word (by decide) hword hsigil hrest]
    rfl
  | .symbol name, hclean, rest, hrest => by
    obtain ⟨hne, hnil, hword, hsigil⟩ := hclean
    have hne' : name.toList ≠ [] := fun h => hne (String.toList_eq_nil_iff.mp h)
    -- `nil` is the one word that is not read as a symbol.
    have hnil' : name.toList ≠ "nil".toList := fun h => hnil (String.toList_inj.mp h)
    rw [put, tokens?_word hne' hword hsigil hrest, ofWord, if_neg hnil', String.ofList_toList]
    rfl
  | .keyword name, hclean, rest, hrest => by
    have hatom : atom? ':' (name.toList ++ rest) = some (.keyword name, rest) := by
      rw [atom?, if_neg (by decide), if_pos rfl, takeWhile_word hclean hrest,
        dropWhile_word hclean hrest, String.ofList_toList]
    rw [put, tokens?_cons (by decide) hatom]
    rfl
  | .str text, _, rest, hrest => by
    have hatom : atom? '"' (escaped text.toList ++ '"' :: rest) = some (.str text, rest) := by
      rw [atom?, if_pos rfl, unquoted?_escaped, Option.map_some]
      simp only [String.ofList_toList]
    rw [put, tokens?_cons (by decide) hatom]
    rfl
  | .placeholder kind, hclean, rest, hrest => by
    have hatom : atom? '#' ('<' :: (kind.toList ++ '>' :: rest)) =
        some (.placeholder kind, rest) := by
      rw [atom?, if_neg (by decide), if_neg (by decide), if_pos rfl, angled?_kind hclean,
        Option.map_some]
      simp only [String.ofList_toList]
    rw [put, tokens?_cons (by decide) hatom]
    rfl
  | .list [], _, rest, _ => by
    rw [put, tokens?, if_neg (by decide), if_pos rfl, tokens?, if_neg (by decide),
      if_neg (by decide), if_pos rfl, Option.map_map]
    rfl
  | .list (item :: items), hclean, rest, _ => by
    have hclosing : tokens? (')' :: rest) = (tokens? rest).map (.closing :: ·) := by
      rw [tokens?, if_neg (by decide), if_neg (by decide), if_pos rfl]
    -- What follows an item, a space or the closing parenthesis, ends it if it is a word.
    have hitems := tokens?_putTail items hclean.2 (')' :: rest) (by simp [EndsWord, isWordChar])
    have hitem := tokens?_put item hclean.1 _ (endsWord_putTail items rest)
    rw [put, tokens?, if_neg (by decide), if_pos rfl, hitem, hitems, hclosing]
    cases tokens? rest with
    | none => rfl
    | some more => simp [tokens, tokensOfItems]

/-- `tokens?_put` for the items after the first one. -/
theorem tokens?_putTail : ∀ (items : List SExpr), CleanItems items → ∀ rest : List Char,
    EndsWord rest → tokens? (putTail items rest) = (tokens? rest).map (tokensOfItems items ++ ·)
  | [], _, rest, _ => by
    cases h : tokens? rest <;> simp [putTail, tokensOfItems, h]
  | item :: items, hclean, rest, hrest => by
    have hends : EndsWord (putTail items rest) := by
      cases items with
      | nil => exact hrest
      | cons => simp [putTail, EndsWord, isWordChar]
    rw [putTail, tokens?, if_pos rfl, tokens?_put item hclean.1 _ hends,
      tokens?_putTail items hclean.2 rest hrest]
    cases tokens? rest with
    | none => rfl
    | some more => simp [tokensOfItems]

end

mutual

/-- The tokens of an expression put it on top of the stack, whatever is below. -/
theorem foldlM_tokens : ∀ (expr : SExpr) (items : List SExpr) (outer : List (List SExpr)),
    expr.tokens.foldlM step? (items :: outer) = some ((expr :: items) :: outer)
  | .nil, _, _ => rfl
  | .symbol _, _, _ => rfl
  | .keyword _, _, _ => rfl
  | .str _, _, _ => rfl
  | .placeholder _, _, _ => rfl
  | .list inner, items, outer => by
    -- The items go on a new list with the last one first, and closing it turns them round.
    rw [tokens, List.foldlM_cons, step?, Option.bind_eq_bind, Option.bind_some,
      List.foldlM_append, foldlM_tokensOfItems inner [] (items :: outer), Option.bind_eq_bind,
      Option.bind_some, List.append_nil, List.foldlM_cons, step?, Option.bind_eq_bind,
      Option.bind_some, List.reverse_reverse]
    rfl

/-- `foldlM_tokens` for items one after the other. -/
theorem foldlM_tokensOfItems : ∀ (inner items : List SExpr) (outer : List (List SExpr)),
    (tokensOfItems inner).foldlM step? (items :: outer) =
      some ((inner.reverse ++ items) :: outer)
  | [], _, _ => rfl
  | expr :: inner, items, outer => by
    rw [tokensOfItems, List.foldlM_append, foldlM_tokens expr items outer, Option.bind_eq_bind,
      Option.bind_some, foldlM_tokensOfItems inner (expr :: items) outer, List.reverse_cons,
      List.append_assoc, List.singleton_append]

end

/-- Reading the text of a clean expression gives the expression back. -/
theorem read?_render (expr : SExpr) (hclean : expr.Clean) : read? expr.render = some expr := by
  have htokens : tokens? (expr.put []) = some expr.tokens := by
    rw [tokens?_put expr hclean [] (by simp [EndsWord]), tokens?, Option.map_some,
      List.append_nil]
  rw [read?, render, String.toList_ofList, htokens, Option.bind_eq_bind, Option.bind_some,
    foldlM_tokens, Option.bind_eq_bind, Option.bind_some]

/-- The text of a clean expression shows which expression it is: there is a reader that gives it
back, and so two clean expressions with the same text are the same. -/
theorem render_unambiguous :
    (∀ expr : SExpr, expr.Clean → read? expr.render = some expr) ∧
      ∀ expr₁ expr₂ : SExpr, expr₁.Clean → expr₂.Clean → expr₁.render = expr₂.render →
        expr₁ = expr₂ := by
  refine ⟨read?_render, ?_⟩
  intro expr₁ expr₂ hclean₁ hclean₂ heq
  have hread₁ := read?_render expr₁ hclean₁
  rw [heq, read?_render expr₂ hclean₂] at hread₁
  exact (Option.some.inj hread₁).symm

/-- `render_unambiguous` where a string holds what ends a string, a list and a marker. -/
theorem render_unambiguous_of_delimiters :
    (list [symbol "Str", keyword "s", str "\\\") :kind (nil", list [nil, placeholder "a b"]]).Clean ∧
      read? (list [symbol "Str", keyword "s", str "\\\") :kind (nil",
        list [nil, placeholder "a b"]]).render =
      some (list [symbol "Str", keyword "s", str "\\\") :kind (nil",
        list [nil, placeholder "a b"]]) := by
  have hclean : (list [symbol "Str", keyword "s", str "\\\") :kind (nil",
      list [nil, placeholder "a b"]]).Clean := by
    simp [Clean, CleanItems, isWordChar, isSigil]
  exact ⟨hclean, render_unambiguous.1 _ hclean⟩

end TreeText.SExpr
