import Orm.Derive.Role

/-
What a type wraps. A type written as a path is read up to its last name (`Tokens.pieces_path`), and
signs that take tokens apart are looked for outside brackets only (`Tokens.Passes`). So `Option` around
a type gives that type back (`Tokens.argument?_wrapped`), and a type with another last name is not taken
for one (`Tokens.argument?_of_ne`).
-/

namespace Orm.Derive.Tokens

/-! ## Names -/

/-- A name, or a reserved word that a path may begin with. -/
def word (t : Token) : Bool := isName t || places.contains t

/-- The signs that take types apart. -/
def separators : List Token := ["::", "+", "->", ",", "=", ":"]

/-- Tokens that are no names. -/
def signs : List Token := separators ++ ["<", ">", "(", "[", "\x7b", ")", "]", "\x7d", "-"]

theorem ne_of_word {t x : Token} (h : word t = true) (hx : x ∈ signs) : t ≠ x := by
  have noWord : ∀ x ∈ signs, word x = false := by decide +kernel
  rintro rfl
  rw [noWord t hx] at h
  cases h

/-- A name is no lifetime and no literal. -/
theorem plain_of_word {t : Token} (h : word t = true) : isLifetime t = false ∧ isLiteral t = false := by
  rcases Bool.or_eq_true_iff.1 h with h | h
  · simp only [isName, isWord, Bool.and_eq_true, Bool.not_eq_true', List.contains_eq_mem,
      decide_eq_false_iff_not] at h
    obtain ⟨⟨hstart, hquote⟩, hreserved⟩ := h
    have hlifetime : isLifetime t = false := by
      rw [isLifetime]
      split
      · next cs ht =>
        rw [ht] at hquote
        cases hquote
      · rfl
    have hnumber : isNumber t = false := by
      rw [isNumber]
      cases hhead : t.toList.head? with
      | none => rfl
      | some c =>
        rw [hhead, Option.any_some, Text.isNameStart, Bool.and_eq_true, Bool.and_eq_true,
          Bool.not_eq_true'] at hstart
        exact hstart.1.2
    have htrue : t ≠ "true" := fun ht => hreserved (ht ▸ by decide)
    have hfalse : t ≠ "false" := fun ht => hreserved (ht ▸ by decide)
    refine ⟨hlifetime, ?_⟩
    rw [isLiteral, hnumber, hquote, beq_eq_false_iff_ne.2 htrue, beq_eq_false_iff_ne.2 hfalse]
    rfl
  · have all : ∀ t ∈ places, isLifetime t = false ∧ isLiteral t = false := by decide
    exact all t (List.contains_iff_mem.1 h)

/-! ## Pieces -/

/-- Tokens put in front of the first piece. -/
def inFront (ts : Tokens) : List Tokens → List Tokens
  | [] => [ts]
  | p :: ps => (ts ++ p) :: ps

theorem inFront_append (ts us : Tokens) (ps : List Tokens) :
    inFront (ts ++ us) ps = inFront ts (inFront us ps) := by
  cases ps with
  | nil => rfl
  | cons p ps => rw [inFront, inFront, inFront, List.append_assoc]

theorem length_inFront {ps : List Tokens} (h : ps ≠ []) (ts : Tokens) :
    (inFront ts ps).length = ps.length := by
  cases ps with
  | nil => exact absurd rfl h
  | cons p ps => rfl

theorem piecesIn_ne_nil (sep : Token) (groups angles : Nat) (ts : Tokens) :
    piecesIn sep groups angles ts ≠ [] := by
  cases ts with
  | nil => exact List.cons_ne_nil _ _
  | cons t ts =>
    rw [piecesIn]
    dsimp only
    split
    · exact List.cons_ne_nil _ _
    · split <;> exact List.cons_ne_nil _ _

/-- Tokens that no `sep` takes apart within so many angle brackets. -/
def Passes (sep : Token) (angles : Nat) (ts : Tokens) : Prop :=
  ∀ rest, piecesIn sep 0 angles (ts ++ rest) = inFront ts (piecesIn sep 0 angles rest)

variable {sep t : Token} {angles : Nat} {ts us : Tokens}

theorem Passes.nil : Passes sep angles [] := by
  intro rest
  rw [List.nil_append]
  cases h : piecesIn sep 0 angles rest with
  | nil => exact absurd h (piecesIn_ne_nil _ _ _ _)
  | cons p ps => rfl

theorem Passes.append (h : Passes sep angles ts) (h' : Passes sep angles us) :
    Passes sep angles (ts ++ us) := by
  intro rest
  rw [List.append_assoc, h, h', inFront_append]

/-- A token that is no bracket passes, unless it is the sign itself and stands in no brackets. -/
theorem Passes.single (hopen : opens t = false) (hclose : closes t = false) (hl : t ≠ "<")
    (hr : t ≠ ">") (hsep : t = sep → angles ≠ 0) : Passes sep angles [t] := by
  intro rest
  rw [List.singleton_append, piecesIn, if_neg fun h => hsep h.1 h.2.2]
  simp only [ne_eq, not_true_eq_false, if_false, if_neg hl, if_neg hr, hopen, hclose,
    Bool.false_eq_true]
  cases piecesIn sep 0 angles rest <;> rfl

theorem Passes.word (h : word t = true) (hsep : sep ∈ separators) : Passes sep angles [t] := by
  have hne : ∀ x ∈ signs, t ≠ x := fun x hx => ne_of_word h hx
  refine .single ?_ ?_ (hne "<" (by decide)) (hne ">" (by decide))
    fun hs => absurd hs (hne sep (List.mem_append_left _ hsep))
  · simp only [opens, List.contains_eq_mem, List.mem_cons, hne "(" (by decide), hne "[" (by decide),
      hne "\x7b" (by decide), List.not_mem_nil, or_self, decide_false]
  · simp only [closes, List.contains_eq_mem, List.mem_cons, hne ")" (by decide), hne "]" (by decide),
      hne "\x7d" (by decide), List.not_mem_nil, or_self, decide_false]

theorem Passes.words (h : ∀ t ∈ ts, Tokens.word t = true) (hsep : sep ∈ separators) :
    Passes sep angles ts := by
  induction ts with
  | nil => exact .nil
  | cons t ts ih =>
    exact .append (.word (h t List.mem_cons_self) hsep)
      (ih fun u hu => h u (List.mem_cons_of_mem t hu))

/-- Tokens in angle brackets pass with them. -/
theorem Passes.enclosed (h : Passes sep (angles + 1) ts) (hsep : sep ∈ separators) :
    Passes sep angles ("<" :: ts ++ [">"]) := by
  have noAngle : ∀ sep ∈ separators, "<" ≠ sep ∧ ">" ≠ sep := by decide
  obtain ⟨hl, hr⟩ := noAngle sep hsep
  have opened : ∀ rest, piecesIn sep 0 angles ("<" :: rest) =
      inFront ["<"] (piecesIn sep 0 (angles + 1) rest) := by
    intro rest
    rw [piecesIn, if_neg fun h => hl h.1]
    cases hp : piecesIn sep 0 (angles + 1) rest <;> simp [hp, opens, closes, inFront]
  have closed : ∀ rest, piecesIn sep 0 (angles + 1) (">" :: rest) =
      inFront [">"] (piecesIn sep 0 angles rest) := by
    intro rest
    rw [piecesIn, if_neg fun h => hr h.1]
    cases hp : piecesIn sep 0 angles rest <;> simp [hp, opens, closes, inFront]
  intro rest
  calc piecesIn sep 0 angles ("<" :: ts ++ [">"] ++ rest)
      = inFront ["<"] (piecesIn sep 0 (angles + 1) (ts ++ ">" :: rest)) := by
        rw [List.append_assoc]
        exact opened _
    _ = inFront ["<"] (inFront ts (inFront [">"] (piecesIn sep 0 angles rest))) := by
        rw [h, closed]
    _ = inFront ("<" :: ts ++ [">"]) (piecesIn sep 0 angles rest) := by
        rw [← inFront_append, ← inFront_append, List.singleton_append]

theorem pieces_of_passes (h : Passes sep 0 ts) : pieces sep ts = [ts] := by
  have hp := h []
  rw [List.append_nil] at hp
  rw [pieces, hp, piecesIn, inFront, List.append_nil]

theorem isWhole_of_passes (h : Passes sep 0 ts) : isWhole sep ts = true := by
  rw [isWhole, pieces_of_passes h]
  rfl

/-- Tokens behind one that passes are taken apart no more than with it. -/
theorem isWhole_of_cons (h : Passes sep 0 [t]) : isWhole sep ts = isWhole sep (t :: ts) := by
  rw [isWhole, isWhole, pieces, pieces, ← List.singleton_append, h,
    length_inFront (piecesIn_ne_nil sep 0 0 ts)]

/-! ## Paths -/

/-- Tokens behind the names that lead to them, each followed by its sign. No name at all stands for the
sign in front of a path. -/
def path (places : List Tokens) (ts : Tokens) : Tokens := places.flatMap (· ++ ["::"]) ++ ts

theorem path_cons (p : Tokens) (places : List Tokens) (ts : Tokens) :
    path (p :: places) ts = p ++ "::" :: path places ts := by
  simp [path]

/-- Places that are given by names. -/
def Named (places : List Tokens) : Prop := ∀ p ∈ places, ∀ t ∈ p, word t = true

instance (places : List Tokens) : Decidable (Named places) :=
  inferInstanceAs (Decidable (∀ p ∈ places, ∀ t ∈ p, word t = true))

variable {places : List Tokens}

theorem Named.tail {p : Tokens} (h : Named (p :: places)) : Named places :=
  fun q hq => h q (List.mem_cons_of_mem p hq)

theorem Passes.path (hp : Named places) (hsep : sep ∈ separators) (hs : "::" = sep → angles ≠ 0)
    (h : Passes sep angles ts) : Passes sep angles (path places ts) := by
  induction places with
  | nil => exact h
  | cons p places ih =>
    rw [path_cons, ← List.singleton_append]
    have names : Passes sep angles p := .words (hp p List.mem_cons_self) hsep
    have sign : Passes sep angles ["::"] :=
      .single (by decide) (by decide) (by decide) (by decide) hs
    exact names.append (sign.append (ih hp.tail))

/-- A path is taken apart into its names. -/
theorem pieces_path (hp : Named places) (ts : Tokens) :
    pieces "::" (path places ts) = places ++ pieces "::" ts := by
  induction places with
  | nil => rfl
  | cons p places ih =>
    rw [path_cons, pieces, Passes.words (hp p List.mem_cons_self) (by decide), piecesIn,
      if_pos ⟨rfl, rfl, rfl⟩, inFront, List.append_nil]
    exact congrArg (p :: ·) (ih hp.tail)

/-- Tokens that begin as a path does. -/
def BeginsPath (ts : Tokens) : Prop := ∃ t rest, ts = t :: rest ∧ (t = "::" ∨ word t = true)

theorem BeginsPath.path (h : BeginsPath ts) (hp : Named places) : BeginsPath (path places ts) := by
  cases places with
  | nil => exact h
  | cons p places =>
    rw [path_cons]
    cases p with
    | nil => exact ⟨_, _, rfl, .inl rfl⟩
    | cons t p => exact ⟨t, _, rfl, .inr (hp _ List.mem_cons_self t List.mem_cons_self)⟩

theorem BeginsPath.head (h : BeginsPath ts) : ts.head?.any beginsPath = true := by
  obtain ⟨t, rest, rfl, rfl | ht⟩ := h
  · rfl
  · rw [List.head?_cons, Option.any_some, beginsPath, Bool.or_assoc]
    exact Bool.or_eq_true_iff.2 (.inr ht)

/-- What may stand as a type in angle brackets: a path, in which signs are in brackets of their own. -/
structure IsArgument (ts : Tokens) : Prop where
  passes : ∀ sep ∈ separators, ∀ angles, ("::" = sep → angles ≠ 0) → Passes sep angles ts
  begins : BeginsPath ts

theorem IsArgument.path (h : IsArgument ts) (hp : Named places) : IsArgument (path places ts) where
  passes sep hsep angles hs := .path hp hsep hs (h.passes sep hsep angles hs)
  begins := h.begins.path hp

theorem IsArgument.single (h : word t = true) : IsArgument [t] :=
  ⟨fun _ hsep _ _ => .word h hsep, t, [], rfl, .inr h⟩

theorem Passes.wrapped (ht : Tokens.word t = true) (h : IsArgument ts) (hsep : sep ∈ separators) :
    Passes sep angles (t :: "<" :: ts ++ [">"]) := by
  have inner : Passes sep (angles + 1) ts :=
    h.passes sep hsep (angles + 1) fun _ => Nat.succ_ne_zero angles
  have outer : Passes sep angles [t] := .word ht hsep
  exact outer.append (.enclosed inner hsep)

theorem IsArgument.wrapped (ht : word t = true) (h : IsArgument ts) :
    IsArgument (t :: "<" :: ts ++ [">"]) :=
  ⟨fun _ hsep _ _ => .wrapped ht h hsep, t, _, rfl, .inr ht⟩

theorem IsArgument.isType (h : IsArgument ts) : isType ts = true := by
  obtain ⟨t, rest, rfl, ht⟩ := h.begins
  have plain : isLifetime t = false ∧ isLiteral t = false ∧ t ≠ "-" ∧ t ≠ "\x7b" := by
    rcases ht with rfl | ht
    · decide
    · exact ⟨(plain_of_word ht).1, (plain_of_word ht).2, ne_of_word ht (by decide),
        ne_of_word ht (by decide)⟩
  obtain ⟨lifetime, literal, minus, brace⟩ := plain
  have whole : ∀ sep ∈ separators, "::" ≠ sep → isWhole sep rest = true := by
    intro sep hsep hne
    have first : Passes sep 0 [t] := by
      rcases ht with rfl | ht
      · exact .single (by decide) (by decide) (by decide) (by decide) fun hs => absurd hs hne
      · exact .word ht hsep
    rw [isWhole_of_cons first]
    exact isWhole_of_passes (h.passes sep hsep 0 fun hs => absurd hs hne)
  rw [Tokens.isType, if_neg (by rw [lifetime]; exact Bool.false_ne_true), literal,
    beq_eq_false_iff_ne.2 minus, beq_eq_false_iff_ne.2 brace, whole "=" (by decide) (by decide),
    whole ":" (by decide) (by decide)]
  rfl

/-! ## Wrappers -/

/-- A type whose last name is another is not the wrapper. -/
theorem argument?_of_ne {wrapper name : Token} {type rest : Tokens} {before : List Tokens}
    (h : pieces "::" type = before ++ [name :: rest]) (hname : name ≠ wrapper) (hl : name ≠ "<") :
    argument? wrapper type = none := by
  have last : ∀ n args, lastSegment? type = some (n, args) → n = name := by
    intro n args hn
    rw [lastSegment?] at hn
    split at hn
    · cases hn
    · rw [h, List.reverse_append, List.reverse_singleton, List.singleton_append] at hn
      split at hn
      case h_1 heq =>
        cases heq
        simp only [bind, Option.bind_eq_some_iff, Option.some.injEq, Prod.mk.injEq, pure] at hn
        obtain ⟨_, _, hn, _⟩ := hn
        exact hn.symm
      case h_2 heq =>
        -- the arguments behind a sign of their own would begin with an angle bracket
        have noArguments : enclosed? (name :: rest) = none := by
          rw [enclosed?]
          rintro _ ⟨⟩
          exact hl rfl
        obtain ⟨rfl, -⟩ := List.cons.inj heq
        rw [noArguments] at hn
        cases hn
      case h_3 => cases hn
  rw [argument?]
  cases hs : lastSegment? type with
  | none => rfl
  | some p =>
    obtain ⟨n, args⟩ := p
    obtain rfl := last n args hs
    exact if_pos hname

/-- The wrapper around a type gives that type. -/
theorem argument?_wrapped (hp : Named places) {wrapper : Token} (hw : word wrapper = true)
    (h : IsArgument ts) : argument? wrapper (path places (wrapper :: "<" :: ts ++ [">"])) = some ts := by
  have passes : ∀ sep ∈ separators, Passes sep 0 (wrapper :: "<" :: ts ++ [">"]) :=
    fun _ hsep => .wrapped hw h hsep
  have whole : ∀ sep ∈ separators, "::" ≠ sep →
      isWhole sep (path places (wrapper :: "<" :: ts ++ [">"])) = true := fun sep hsep hne =>
    isWhole_of_passes (.path hp hsep (fun hs => absurd hs hne) (passes sep hsep))
  have begins : (path places (wrapper :: "<" :: ts ++ [">"])).head?.any beginsPath = true :=
    (BeginsPath.path ⟨wrapper, _, rfl, .inr hw⟩ hp).head
  have names : pieces "::" (path places (wrapper :: "<" :: ts ++ [">"])) =
      places ++ [wrapper :: "<" :: ts ++ [">"]] := by
    rw [pieces_path hp, pieces_of_passes (passes "::" (by decide))]
  have inner : enclosed? ("<" :: (ts ++ [">"])) = some ts := by
    rw [enclosed?, if_pos List.getLast?_concat, List.dropLast_concat]
  have last : lastSegment? (path places (wrapper :: "<" :: ts ++ [">"])) = some (wrapper, ts) := by
    rw [lastSegment?, begins, names, List.reverse_append, whole "+" (by decide) (by decide),
      whole "->" (by decide) (by decide)]
    change (enclosed? ("<" :: (ts ++ [">"])) >>= fun args => some (wrapper, args)) = _
    rw [inner]
    rfl
  have first : pieces "," ts = [ts] := pieces_of_passes (h.passes "," (by decide) 0 (by decide))
  rw [argument?, last]
  simp only [Option.bind_eq_bind, Option.bind_some, ne_eq, not_true_eq_false, if_false, first,
    List.head?_cons, h.isType, if_true]

end Orm.Derive.Tokens
