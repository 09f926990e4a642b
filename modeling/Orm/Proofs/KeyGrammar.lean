import Orm.Lookup
import Orm.Proofs.Outcome

/-
What the keys of filters mean. The expression for them (`keyExpression`) prefers the shortest path, and its
first match is where `suffix?` cuts (`keyExpression_head`). There is one place at most to cut
(`cut_unique`), so that is a cut into any path and any name that make up the key (`Suffixed.cut`).
-/

namespace Orm

/-! ## Expressions -/

/-- A regular expression with groups that have names. Of the ways in which it matches, those that come
first are preferred. -/
inductive Regex where
  | char (ok : Char → Bool)
  /-- One character or more: as few as possible, or as many. -/
  | few (ok : Char → Bool)
  | many (ok : Char → Bool)
  | seq (a b : Regex)
  /-- With it rather than without. -/
  | optional (r : Regex)
  | group (name : String) (r : Regex)
  /-- The end of the text. -/
  | stop

namespace Regex

/-- What the groups have taken. -/
abbrev Groups := List (String × List Char)

def fewRests (ok : Char → Bool) : List Char → List (List Char)
  | [] => []
  | c :: cs => if ok c then cs :: fewRests ok cs else []

def manyRests (ok : Char → Bool) : List Char → List (List Char)
  | [] => []
  | c :: cs => if ok c then manyRests ok cs ++ [cs] else []

/-- The ways in which an expression matches from a place on, the preferred ones first, each with what is
left of the text. -/
def run : Regex → List Char → List (Groups × List Char)
  | char _, [] => []
  | char ok, c :: cs => if ok c then [([], cs)] else []
  | few ok, cs => (fewRests ok cs).map ([], ·)
  | many ok, cs => (manyRests ok cs).map ([], ·)
  | seq a b, cs => (a.run cs).flatMap fun m => (b.run m.2).map fun n => (m.1 ++ n.1, n.2)
  | optional r, cs => r.run cs ++ [([], cs)]
  | group name r, cs =>
    (r.run cs).map fun m => ((name, cs.take (cs.length - m.2.length)) :: m.1, m.2)
  | stop, cs => if cs.isEmpty then [([], cs)] else []

/-- What the groups take in the first match of a whole text. -/
def first? (r : Regex) (s : String) : Option Groups := (r.run s.toList).head?.map (·.1)

theorem run_assoc (a b c : Regex) (cs : List Char) :
    (seq (seq a b) c).run cs = (seq a (seq b c)).run cs := by
  simp only [run, List.flatMap_assoc, List.map_flatMap, List.flatMap_map, List.map_map,
    Function.comp_def, List.append_assoc]

theorem run_optional (a b : Regex) (cs : List Char) :
    (seq (optional a) b).run cs = (seq a b).run cs ++ b.run cs := by
  simp [run]

theorem run_char (ok : Char → Bool) (b : Regex) (c : Char) (cs : List Char) :
    (seq (char ok) b).run (c :: cs) = if ok c then b.run cs else [] := by
  rw [run, run]
  split <;> simp

/-- Of the ways to take as many characters as possible, only the first may reach the end. -/
theorem manyRests_stop {α : Type} (ok : Char → Bool) (f : List Char → α) (cs : List Char) :
    ((manyRests ok cs).flatMap fun r => if r.isEmpty then [f r] else []) =
      if cs ≠ [] ∧ cs.all ok then [f []] else [] := by
  induction cs with
  | nil => rfl
  | cons c cs ih =>
    rw [manyRests]
    by_cases hc : ok c = true
    · cases cs with
      | nil => simp [hc, manyRests]
      | cons d cs => simpa [hc] using ih
    · simp [hc]

theorem mem_of_mem_fewRests {ok : Char → Bool} {c : Char} (hc : ok c = false) {cs r : List Char}
    (hmem : c ∈ cs) (hr : r ∈ fewRests ok cs) : c ∈ r := by
  induction cs with
  | nil => cases hr
  | cons d cs ih =>
    rw [fewRests] at hr
    split at hr
    · next hd =>
      have hne : c ≠ d := by
        rintro rfl
        exact Bool.false_ne_true (hc.symm.trans hd)
      have hcs : c ∈ cs := (List.mem_cons.1 hmem).resolve_left hne
      rcases List.mem_cons.1 hr with rfl | hr
      · exact hcs
      · exact ih hcs hr
    · cases hr

end Regex

/-! ## Keys -/

/-- What may stand behind a path: nothing, or `__` and the name of a lookup. -/
def suffixExpression : Regex :=
  .seq (.optional (.seq (.char (· == '_')) (.seq (.char (· == '_'))
    (.group "lookup" (.many isLetter))))) .stop

/-- A key is a path and what may stand behind it, and the path is as short as can be. -/
def keyExpression : Regex :=
  .seq (.group "path" (.few (· != '\n'))) suffixExpression

/-- The name behind `__`, if it is one. -/
def suffixWord? : List Char → Option (List Char)
  | '_' :: '_' :: word => if word ≠ [] ∧ word.all isLetter then some word else none
  | _ => none

theorem suffixWord?_eq_some {cs word : List Char} : suffixWord? cs = some word ↔
    cs = '_' :: '_' :: word ∧ word ≠ [] ∧ word.all isLetter := by
  unfold suffixWord?
  split
  · next w =>
    rw [Option.ite_none_right_eq_some, Option.some.injEq]
    constructor
    · rintro ⟨h, rfl⟩
      exact ⟨rfl, h⟩
    · rintro ⟨h, hword⟩
      cases h
      exact ⟨hword, rfl⟩
  · next h =>
    refine iff_of_false nofun fun hword => h word hword.1

/-- Behind the first character a key is cut where a name follows. -/
theorem suffix?_cons (before : List Char) (c : Char) (cs : List Char) :
    suffix? before (c :: cs) = match suffixWord? (c :: cs) with
      | some word => if before = [] then suffix? [c] cs else some (before.reverse, word)
      | none => suffix? (c :: before) cs := by
  by_cases h : ∃ word, c = '_' ∧ cs = '_' :: word
  · obtain ⟨word, rfl, rfl⟩ := h
    rw [suffix?, suffixWord?]
    by_cases hword : word ≠ [] ∧ word.all isLetter = true
    · rw [if_pos hword]
      cases before <;> simp [hword]
    · have hnot : (!before.isEmpty && !word.isEmpty && word.all isLetter) = false := by
        simpa [and_assoc] using fun _ => by simpa using hword
      rw [if_neg hword, hnot]
      rfl
  · have hnone : suffixWord? (c :: cs) = none := by
      refine Option.eq_none_iff_forall_ne_some.2 fun word hword => h ⟨word, ?_⟩
      obtain ⟨heq, -⟩ := suffixWord?_eq_some.1 hword
      exact List.cons.inj heq
    rw [suffix?, hnone]
    exact fun word hc hcs => h ⟨word, hc, hcs⟩

/-- What an expression for the end of a key takes: nothing, or a name. -/
def suffixGroups? (cs : List Char) : Option Regex.Groups :=
  if cs = [] then some [] else (suffixWord? cs).map fun word => [("lookup", word)]

theorem suffixExpression_run (cs : List Char) :
    suffixExpression.run cs = (suffixGroups? cs).toList.map (·, []) := by
  have hname : ∀ word, (Regex.seq (.group "lookup" (.many isLetter)) .stop).run word =
      if word ≠ [] ∧ word.all isLetter then [([("lookup", word)], [])] else [] := by
    intro word
    have hstop := Regex.manyRests_stop isLetter
      (fun r => ([("lookup", word.take (word.length - r.length))], r)) word
    rw [List.length_nil, Nat.sub_zero, List.take_length] at hstop
    rw [← hstop, Regex.run, Regex.run, Regex.run, List.map_map, List.flatMap_map]
    refine List.flatMap_congr fun r _ => ?_
    cases r <;> rfl
  rw [suffixExpression, Regex.run_optional, Regex.run_assoc]
  match cs with
  | [] => rfl
  | c :: cs =>
    rw [Regex.run_char]
    by_cases hc : c = '_'
    · subst hc
      rw [if_pos (beq_self_eq_true '_'), Regex.run_assoc]
      match cs with
      | [] => rfl
      | d :: word =>
        rw [Regex.run_char]
        by_cases hd : d = '_'
        · subst hd
          rw [if_pos (beq_self_eq_true '_'), hname, suffixGroups?, if_neg (List.cons_ne_nil _ _),
            suffixWord?]
          split <;> rfl
        · simp [hd, suffixGroups?, suffixWord?, Regex.run]
    · simp [hc, suffixGroups?, suffixWord?, Regex.run]

/-- The groups of a key that is cut so. -/
def keyGroups (text : List Char) : Option (List Char × List Char) → Regex.Groups
  | some (path, word) => [("path", path), ("lookup", word)]
  | none => [("path", text)]

/-- From a place behind the first character on, the first match is where `suffix?` cuts. -/
theorem head?_suffixes {text before cs : List Char} (htext : before.reverse ++ cs = text)
    (hbefore : before ≠ []) (hcs : '\n' ∉ cs) :
    ((cs :: Regex.fewRests (· != '\n') cs).flatMap fun r => (suffixGroups? r).toList.map
      fun groups => ("path", text.take (text.length - r.length)) :: groups).head? =
    some (keyGroups text (suffix? before cs)) := by
  have htake : ∀ {b r : List Char}, b.reverse ++ r = text →
      text.take (text.length - r.length) = b.reverse := by
    intro b r h
    simp [← h]
  induction cs generalizing before with
  | nil =>
    rw [List.append_nil] at htext
    subst htext
    simp [Regex.fewRests, suffixGroups?, suffix?, keyGroups, List.take_of_length_le]
  | cons c cs ih =>
    obtain ⟨hc, hcs⟩ := List.ne_and_not_mem_of_not_mem_cons hcs
    have htext' : (c :: before).reverse ++ cs = text := by simp [← htext]
    have hnext := ih htext' (List.cons_ne_nil _ _) hcs
    have hrests : Regex.fewRests (· != '\n') (c :: cs) = cs :: Regex.fewRests (· != '\n') cs :=
      if_pos (bne_iff_ne.2 hc.symm)
    rw [List.flatMap_cons, List.head?_append, hrests, hnext, htake htext, suffix?_cons, suffixGroups?,
      if_neg (List.cons_ne_nil c cs)]
    cases suffixWord? (c :: cs) with
    | none => rfl
    | some word => simp [hbefore, keyGroups]

/-- What the groups of a key say. -/
def readGroups (groups : Regex.Groups) : Result (String × Lookup) := do
  let lookup ← match groups.lookup "lookup" with
    | some name => Lookup.ofName (String.ofList name)
    | none => .ok .exact
  return (String.ofList ((groups.lookup "path").getD []), lookup)

theorem keyExpression_run (cs : List Char) : keyExpression.run cs =
    (Regex.fewRests (· != '\n') cs).flatMap fun r => (suffixGroups? r).toList.map
      fun groups => (("path", cs.take (cs.length - r.length)) :: groups, []) := by
  simp only [keyExpression, Regex.run, suffixExpression_run, List.map_map, List.flatMap_map,
    Function.comp_def, List.cons_append, List.nil_append]

theorem suffixGroups?_eq_none {cs : List Char} (h : '\n' ∈ cs) : suffixGroups? cs = none := by
  have hword : suffixWord? cs = none := by
    refine Option.eq_none_iff_forall_ne_some.2 fun word hword => ?_
    obtain ⟨rfl, -, hletters⟩ := suffixWord?_eq_some.1 hword
    have hmem : '\n' ∈ word := by simpa using h
    exact absurd (List.all_eq_true.1 hletters _ hmem) (by decide)
  rw [suffixGroups?, if_neg (List.ne_nil_of_mem h), hword]
  rfl

/-- The expression matches the keys that have a character and no line break, and its first match is where
`suffix?` cuts. -/
theorem keyExpression_head (cs : List Char) : (keyExpression.run cs).head? =
    if cs = [] ∨ '\n' ∈ cs then none else some (keyGroups cs (suffix? [] cs), []) := by
  rw [keyExpression_run]
  cases cs with
  | nil => rfl
  | cons c cs =>
    by_cases hbreak : '\n' ∈ c :: cs
    · rw [if_pos (.inr hbreak), List.head?_eq_none_iff, List.flatMap_eq_nil_iff]
      intro r hr
      rw [suffixGroups?_eq_none (Regex.mem_of_mem_fewRests rfl hbreak hr)]
      rfl
    · obtain ⟨hc, hcs⟩ := List.ne_and_not_mem_of_not_mem_cons hbreak
      have htext : [c].reverse ++ cs = c :: cs := rfl
      have hfirst := head?_suffixes htext (List.cons_ne_nil _ _) hcs
      have hcut : suffix? [] (c :: cs) = suffix? [c] cs := by
        rw [suffix?_cons]
        split <;> rfl
      have hrests : Regex.fewRests (· != '\n') (c :: cs) = cs :: Regex.fewRests (· != '\n') cs :=
        if_pos (bne_iff_ne.2 hc.symm)
      have hnot : ¬(c :: cs = [] ∨ '\n' ∈ c :: cs) := by simp [hbreak]
      rw [if_neg hnot, hrests, hcut]
      have hpairs := congrArg (Option.map fun groups => (groups, ([] : List Char))) hfirst
      rw [← List.head?_map, List.map_flatMap] at hpairs
      simpa [List.map_map, Function.comp_def] using hpairs

example : keyExpression.first? "user__name__in" =
    some [("path", "user__name".toList), ("lookup", "in".toList)] := by decide

/-- A key that has no character or a line break. -/
def Unreadable (key : String) : Prop := key = "" ∨ '\n' ∈ key.toList

theorem unreadable_iff {key : String} : Unreadable key ↔ key.toList = [] ∨ '\n' ∈ key.toList := by
  rw [Unreadable, String.toList_eq_nil_iff]

theorem parseKey_of_unreadable {key : String} (h : Unreadable key) :
    parseKey key = .error (.unknownField "" key) := by
  have htest : (key.toList.isEmpty || key.toList.contains '\n') = true := by
    simpa using unreadable_iff.1 h
  rw [parseKey]
  simp only [htest]
  rfl

/-- A key that is not cut is a path. -/
theorem parseKey_of_whole {key : String} (h : ¬Unreadable key) (hcut : suffix? [] key.toList = none) :
    parseKey key = .ok (key, .exact) := by
  have htest : (key.toList.isEmpty || key.toList.contains '\n') = false := by
    simpa using mt unreadable_iff.2 h
  rw [parseKey]
  simp only [htest, hcut]
  rfl

/-- A key that is cut is a path and the name of a lookup. -/
theorem parseKey_of_cut {key : String} {path word : List Char} (h : ¬Unreadable key)
    (hcut : suffix? [] key.toList = some (path, word)) :
    parseKey key = (String.ofList path, ·) <$> Lookup.ofName (String.ofList word) := by
  have htest : (key.toList.isEmpty || key.toList.contains '\n') = false := by
    simpa using mt unreadable_iff.2 h
  rw [parseKey]
  simp only [htest, hcut]
  rfl

theorem parseKey_eq (key : String) : parseKey key =
    match keyExpression.first? key with
    | some groups => readGroups groups
    | none => .error (.unknownField "" key) := by
  rw [Regex.first?, keyExpression_head]
  by_cases h : Unreadable key
  · rw [if_pos (unreadable_iff.1 h), parseKey_of_unreadable h]
    rfl
  · rw [if_neg (mt unreadable_iff.2 h)]
    cases hcut : suffix? [] key.toList with
    | none =>
      rw [parseKey_of_whole h hcut]
      exact congrArg (fun path => Except.ok (path, Lookup.exact)) String.ofList_toList.symm
    | some cut =>
      obtain ⟨path, word⟩ := cut
      rw [parseKey_of_cut h hcut]
      rfl

/-! ## Grammar -/

theorem suffix?_eq_some {before cs path word : List Char}
    (h : suffix? before cs = some (path, word)) :
    ∃ p, path = before.reverse ++ p ∧ path ≠ [] ∧ cs = p ++ '_' :: '_' :: word ∧ word ≠ [] ∧
      word.all isLetter := by
  induction cs generalizing before with
  | nil => cases h
  | cons c cs ih =>
    rw [suffix?_cons] at h
    split at h
    · next w hw =>
      obtain ⟨hcs, hne, hletters⟩ := suffixWord?_eq_some.1 hw
      split at h
      · next hbefore =>
        obtain ⟨p, hpath, hpathne, rfl, hword⟩ := ih h
        exact ⟨c :: p, by simp [hpath, hbefore], hpathne, rfl, hword⟩
      · next hbefore =>
        cases h
        exact ⟨[], by simp, by simpa using hbefore, hcs, hne, hletters⟩
    · obtain ⟨p, hpath, hpathne, rfl, hword⟩ := ih h
      exact ⟨c :: p, by simp [hpath], hpathne, rfl, hword⟩

/-- A key with a name behind `__` is cut somewhere. -/
theorem suffix?_ne_none {before p word : List Char} (hpath : before.reverse ++ p ≠ [])
    (hne : word ≠ []) (hletters : word.all isLetter) :
    suffix? before (p ++ '_' :: '_' :: word) ≠ none := by
  have hword : suffixWord? ('_' :: '_' :: word) = some word :=
    suffixWord?_eq_some.2 ⟨rfl, hne, hletters⟩
  induction p generalizing before with
  | nil =>
    have hbefore : before ≠ [] := by simpa using hpath
    rw [List.nil_append, suffix?_cons, hword]
    simp [hbefore]
  | cons c p ih =>
    rw [List.cons_append, suffix?_cons]
    split
    · split
      · exact ih (by simp)
      · exact nofun
    · exact ih (by simp)

/-- The name behind `__` holds no other `__`. -/
theorem eq_nil_of_letters {a v w : List Char} (hv : v.all isLetter)
    (h : '_' :: '_' :: v = a ++ '_' :: '_' :: w) : a = [] := by
  have hnot : '_' ∉ v := fun hmem => absurd (List.all_eq_true.1 hv _ hmem) (by decide)
  cases a with
  | nil => rfl
  | cons x a =>
    refine absurd ?_ hnot
    cases a with
    | nil =>
      obtain ⟨-, hv'⟩ := List.cons.inj (List.cons.inj h).2
      exact hv' ▸ List.mem_cons_self
    | cons y a =>
      obtain ⟨-, hv'⟩ := List.cons.inj (List.cons.inj h).2
      exact hv' ▸ List.mem_append_right a List.mem_cons_self

theorem cut_unique {p q v w : List Char} (hv : v.all isLetter) (hw : w.all isLetter)
    (h : p ++ '_' :: '_' :: v = q ++ '_' :: '_' :: w) : p = q ∧ v = w := by
  rcases List.append_eq_append_iff.1 h with ⟨a, rfl, hvw⟩ | ⟨a, rfl, hwv⟩
  · obtain rfl := eq_nil_of_letters hv hvw
    simpa using hvw
  · obtain rfl := eq_nil_of_letters hw hwv
    simpa using hwv.symm

/-- A key as a path, `__` and a name of letters. -/
structure Suffixed (key path name : String) : Prop where
  text : key = path ++ "__" ++ name
  path_ne : path ≠ ""
  name_ne : name ≠ ""
  letters : ∀ c ∈ name.toList, isLetter c = true

namespace Suffixed

variable {key path name : String}

theorem toList (h : Suffixed key path name) :
    key.toList = path.toList ++ '_' :: '_' :: name.toList := by
  rw [h.text]
  simp

theorem all_letters (h : Suffixed key path name) : name.toList.all isLetter = true :=
  List.all_eq_true.2 h.letters

/-- A key is split in one way only. -/
theorem unique (h : Suffixed key path name) {path' name' : String} (h' : Suffixed key path' name') :
    path' = path ∧ name' = name := by
  obtain ⟨hpath, hname⟩ := cut_unique h'.all_letters h.all_letters (h'.toList.symm.trans h.toList)
  exact ⟨String.toList_injective hpath, String.toList_injective hname⟩

theorem cut (h : Suffixed key path name) :
    suffix? [] key.toList = some (path.toList, name.toList) := by
  have hpath : path.toList ≠ [] := mt String.toList_eq_nil_iff.1 h.path_ne
  have hname : name.toList ≠ [] := mt String.toList_eq_nil_iff.1 h.name_ne
  rw [h.toList]
  cases hcut : suffix? [] (path.toList ++ '_' :: '_' :: name.toList) with
  | none => exact absurd hcut (suffix?_ne_none hpath hname h.all_letters)
  | some cut =>
    obtain ⟨path', word⟩ := cut
    obtain ⟨p, hp, -, hcs, -, hletters⟩ := suffix?_eq_some hcut
    obtain ⟨hpp, hword⟩ := cut_unique hletters h.all_letters hcs.symm
    rw [hp, hpp, hword]
    rfl

end Suffixed

theorem suffixed_of_cut {key : String} {path word : List Char}
    (h : suffix? [] key.toList = some (path, word)) :
    Suffixed key (String.ofList path) (String.ofList word) := by
  obtain ⟨p, rfl, hpath, hkey, hword, hletters⟩ := suffix?_eq_some h
  constructor
  · apply String.toList_injective
    simpa using hkey
  · simpa using hpath
  · simpa using hword
  · simpa using hletters

/-! ## Names -/

theorem Lookup.ofName_name (l : Lookup) : Lookup.ofName l.name = .ok l := by
  cases l <;> rfl

theorem Lookup.ofName_of_ne {s : String} (h : ∀ l : Lookup, l.name ≠ s) :
    Lookup.ofName s = .error (.unsupportedLookup s) := by
  have hnone : Lookup.all.find? (·.name == s) = none :=
    List.find?_eq_none.2 fun l _ hl => h l (beq_iff_eq.1 hl)
  rw [Lookup.ofName, hnone]

theorem Lookup.name_ne (l : Lookup) : l.name ≠ "" := by
  cases l <;> decide

theorem Lookup.name_letters (l : Lookup) : ∀ c ∈ l.name.toList, isLetter c = true :=
  List.all_eq_true.1 (by cases l <;> rfl)

/-! ## Reading -/

theorem parseKey_of_suffixed {key path name : String} (hkey : ¬Unreadable key)
    (h : Suffixed key path name) : parseKey key = (path, ·) <$> Lookup.ofName name := by
  rw [parseKey_of_cut hkey h.cut, String.ofList_toList, String.ofList_toList]

/-- Only a key without a character or with a line break is reported as a field. -/
theorem unreadable_of_unknownField {key m f : String} (h : parseKey key = .error (.unknownField m f)) :
    Unreadable key := by
  by_contra hkey
  cases hcut : suffix? [] key.toList with
  | none =>
    rw [parseKey_of_whole hkey hcut] at h
    cases h
  | some cut =>
    obtain ⟨path, word⟩ := cut
    rw [parseKey_of_cut hkey hcut] at h
    by_cases hname : ∃ l : Lookup, l.name = String.ofList word
    · obtain ⟨l, hl⟩ := hname
      rw [← hl, Lookup.ofName_name] at h
      cases h
    · rw [Lookup.ofName_of_ne (not_exists.1 hname)] at h
      cases h

theorem Suffixed.of_name {path : String} (hpath : path ≠ "") (l : Lookup) :
    Suffixed (path ++ "__" ++ l.name) path l.name :=
  ⟨rfl, hpath, l.name_ne, l.name_letters⟩

theorem readable_of_name {path : String} (hpath : path ≠ "") (hbreak : '\n' ∉ path.toList)
    (l : Lookup) : ¬Unreadable (path ++ "__" ++ l.name) := by
  have hname : '\n' ∉ l.name.toList := fun h => absurd (l.name_letters _ h) (by decide)
  rw [Unreadable, not_or]
  constructor
  · simp [hpath]
  · simp [hbreak, hname]

/-- A key is read as the first match of its expression says: one that is empty or has a line break is no
key, one that ends in `__` and letters names a lookup, in one way only, and any other is a path. The path
may hold `__` itself, and end in underscores. -/
theorem parseKey_grammar (key : String) :
    (parseKey key = match keyExpression.first? key with
      | some groups => readGroups groups
      | none => .error (.unknownField "" key)) ∧
    ((∃ m f, parseKey key = .error (.unknownField m f)) ↔ key = "" ∨ '\n' ∈ key.toList) ∧
    (key ≠ "" → '\n' ∉ key.toList →
      (∀ path name, Suffixed key path name →
        (∀ path' name', Suffixed key path' name' → path' = path ∧ name' = name) ∧
        (∀ l : Lookup, l.name = name → parseKey key = .ok (path, l)) ∧
        ((∀ l : Lookup, l.name ≠ name) → parseKey key = .error (.unsupportedLookup name))) ∧
      ((∀ path name, ¬Suffixed key path name) → parseKey key = .ok (key, .exact))) ∧
    ∀ (path : String) (l : Lookup), path ≠ "" → '\n' ∉ path.toList →
      parseKey (path ++ "__" ++ l.name) = .ok (path, l) := by
  have named : ∀ {key path : String} {l : Lookup}, ¬Unreadable key → Suffixed key path l.name →
      parseKey key = .ok (path, l) := by
    intro key path l hkey h
    rw [parseKey_of_suffixed hkey h, Lookup.ofName_name]
    rfl
  refine ⟨parseKey_eq key, ⟨?_, ?_⟩, ?_, ?_⟩
  · rintro ⟨m, f, h⟩
    exact unreadable_of_unknownField h
  · intro h
    exact ⟨"", key, parseKey_of_unreadable h⟩
  · intro hne hbreak
    have hkey : ¬Unreadable key := not_or.2 ⟨hne, hbreak⟩
    constructor
    · intro path name h
      refine ⟨fun path' name' h' => h.unique h', ?_, ?_⟩
      · rintro l rfl
        exact named hkey h
      · intro hnone
        rw [parseKey_of_suffixed hkey h, Lookup.ofName_of_ne hnone]
        rfl
    · intro hnone
      refine parseKey_of_whole hkey (Option.eq_none_iff_forall_ne_some.2 fun cut hcut => ?_)
      exact hnone _ _ (suffixed_of_cut hcut)
  · intro path l hpath hbreak
    exact named (readable_of_name hpath hbreak l) (.of_name hpath l)

/-- A path with an underscore at its end, a name that no lookup has, and a name without a path. -/
theorem userKeys_read :
    parseKey "user__name___icontains" = .ok ("user__name_", .icontains) ∧
    parseKey "user__Name" = .error (.unsupportedLookup "Name") ∧
    parseKey "__exact" = .ok ("__exact", .exact) := by
  obtain ⟨-, -, -, hname⟩ := parseKey_grammar ""
  obtain ⟨-, -, hcapital, -⟩ := parseKey_grammar "user__Name"
  obtain ⟨-, -, hbare, -⟩ := parseKey_grammar "__exact"
  refine ⟨hname "user__name_" .icontains (by decide) (by decide), ?_, ?_⟩
  · obtain ⟨hsplit, -⟩ := hcapital (by decide) (by decide)
    obtain ⟨-, -, hnone⟩ := hsplit "user" "Name" ⟨rfl, by decide, by decide, List.all_eq_true.1 rfl⟩
    exact hnone fun l => by cases l <;> decide
  · obtain ⟨-, hwhole⟩ := hbare (by decide) (by decide)
    exact hwhole fun path name h => by cases h.cut

end Orm
