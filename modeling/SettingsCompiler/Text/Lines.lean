/-!
# Joining and splitting lines

`joinWith` puts a separator between strings and `unlines` ends each of them with a line
feed. `lineSpans` splits a text after each line feed, and the spans put together give
the text back (`flatten_lineSpans`) ; a line in front of a text is a span of its own
(`lineSpans_line`).
-/

namespace SettingsCompiler.Text

/-! ## Joining -/

/-- The strings in order, with `sep` between neighbours. -/
def joinWith (sep : String) : List String → String
  | [] => ""
  | [s] => s
  | s :: t :: r => s ++ sep ++ joinWith sep (t :: r)

theorem toList_joinWith (sep : String) : ∀ ss : List String,
    (joinWith sep ss).toList = List.intercalate sep.toList (ss.map String.toList)
  | [] => rfl
  | [s] => by simp [joinWith, List.intercalate]
  | s :: t :: r => by
    have ih := toList_joinWith sep (t :: r)
    rw [joinWith, String.toList_append, String.toList_append, ih]
    simp [List.intercalate]

theorem joinWith_append (sep : String) {ts : List String} (hts : ts ≠ []) :
    ∀ {ss : List String}, ss ≠ [] →
      joinWith sep (ss ++ ts) = joinWith sep ss ++ sep ++ joinWith sep ts
  | [s], _ => by
    obtain ⟨t, ts, rfl⟩ := List.exists_cons_of_ne_nil hts
    rfl
  | s :: t :: ss, _ => by
    have ih := joinWith_append sep hts (List.cons_ne_nil t ss)
    rw [List.cons_append] at ih
    rw [List.cons_append, List.cons_append, joinWith, ih, joinWith]
    simp only [String.append_assoc]

/-- Joined group by group, the strings are the same text. -/
theorem joinWith_flatten (sep : String) : ∀ {gs : List (List String)}, (∀ g ∈ gs, g ≠ []) →
    joinWith sep (gs.map (joinWith sep)) = joinWith sep gs.flatten
  | [], _ => rfl
  | [g], _ => by simp [joinWith]
  | g :: g' :: gs, h => by
    obtain ⟨hg, hgs⟩ := List.forall_mem_cons.mp h
    have ih := joinWith_flatten sep hgs
    have hne : (g' :: gs).flatten ≠ [] := by
      simpa using fun hg' => absurd hg' (hgs g' List.mem_cons_self)
    rw [List.map_cons] at ih
    rw [List.flatten_cons, joinWith_append sep hne hg, ← ih]
    rfl

/-- A text of joined strings ends as the last of them. -/
theorem getLast?_joinWith (sep : String) {s : String} (hs : s ≠ "") :
    ∀ ss : List String, (joinWith sep (ss ++ [s])).toList.getLast? = s.toList.getLast?
  | [] => rfl
  | [t] => by
    have hne : s.toList ≠ [] := fun h => hs (String.toList_eq_nil_iff.mp h)
    simp [joinWith, List.getLast?_append, List.getLast?_eq_some_getLast hne]
  | t :: u :: ss => by
    have ih := getLast?_joinWith sep hs (u :: ss)
    have hne : s.toList ≠ [] := fun h => hs (String.toList_eq_nil_iff.mp h)
    rw [List.cons_append] at ih
    rw [List.cons_append, List.cons_append, joinWith, String.toList_append,
      List.getLast?_append, ih, List.getLast?_eq_some_getLast hne, Option.some_or]

theorem mem_joinWith {sep : String} {c : Char} : ∀ {ss : List String},
    c ∈ (joinWith sep ss).toList → c ∈ sep.toList ∨ ∃ s ∈ ss, c ∈ s.toList
  | [s], h => .inr ⟨s, List.mem_cons_self, h⟩
  | s :: t :: ss, h => by
    rw [joinWith, String.toList_append, String.toList_append, List.append_assoc] at h
    rcases List.mem_append.mp h with hs | h
    · exact .inr ⟨s, List.mem_cons_self, hs⟩
    · rcases List.mem_append.mp h with hsep | h
      · exact .inl hsep
      · exact (mem_joinWith h).imp_right fun ⟨u, hu, hc⟩ => ⟨u, List.mem_cons_of_mem s hu, hc⟩

/-- The strings in order, each followed by a line feed. -/
def unlines : List String → String
  | [] => ""
  | s :: r => s ++ "\n" ++ unlines r

theorem unlines_append (ss ts : List String) : unlines (ss ++ ts) = unlines ss ++ unlines ts := by
  induction ss with
  | nil => rw [List.nil_append, unlines, String.empty_append]
  | cons s ss ih => simp only [List.cons_append, unlines, ih, String.append_assoc]

theorem toList_unlines : ∀ ss : List String,
    (unlines ss).toList = ss.flatMap fun s => s.toList ++ ['\n']
  | [] => rfl
  | s :: ss => by
    have ih := toList_unlines ss
    rw [unlines, String.toList_append, String.toList_append, ih, List.flatMap_cons]
    rfl

/-- The string repeated `n` times. -/
def replicate (n : Nat) (s : String) : String :=
  match n with
  | 0 => ""
  | n + 1 => s ++ replicate n s

/-! ## Splitting -/

/-- The lines of a text, each with the line feed that ends it. -/
def lineSpans : List Char → List (List Char)
  | [] => []
  | c :: cs =>
    if c = '\n' then [c] :: lineSpans cs
    else match lineSpans cs with
      | [] => [[c]]
      | l :: ls => (c :: l) :: ls

/-- The lines of a text without the line feeds that end them. -/
def lines (s : String) : List String :=
  (lineSpans s.toList).map fun l => String.ofList (l.takeWhile (· ≠ '\n'))

theorem flatten_lineSpans : ∀ cs : List Char, (lineSpans cs).flatten = cs
  | [] => rfl
  | c :: cs => by
    have ih := flatten_lineSpans cs
    unfold lineSpans
    split
    · simp [ih]
    · split
      · next h => rw [h] at ih; simp [← ih]
      · next l ls h => rw [h] at ih; simp [← ih]

theorem lineSpans_append (b : List Char) : ∀ a : List Char,
    lineSpans (a ++ '\n' :: b) = lineSpans (a ++ ['\n']) ++ lineSpans b
  | [] => rfl
  | c :: a => by
    have ih := lineSpans_append b a
    rw [List.cons_append, List.cons_append, lineSpans, lineSpans]
    split
    · rw [ih, List.cons_append]
    · rw [ih]
      cases h : lineSpans (a ++ ['\n']) with
      | nil =>
        have hflat := flatten_lineSpans (a ++ ['\n'])
        rw [h] at hflat
        simp at hflat
      | cons l ls => rfl

/-- A line is a span, whatever comes behind it. -/
theorem lineSpans_line (b : List Char) : ∀ {a : List Char}, '\n' ∉ a →
    lineSpans (a ++ '\n' :: b) = (a ++ ['\n']) :: lineSpans b
  | [], _ => rfl
  | c :: a, h => by
    have hc : c ≠ '\n' := fun hc => h (hc ▸ List.mem_cons_self)
    have ha : '\n' ∉ a := fun ha => h (List.mem_cons_of_mem c ha)
    rw [List.cons_append, lineSpans, if_neg hc, lineSpans_line b ha, List.cons_append]

/-- Ended strings without line feeds are read back as the lines. -/
theorem lines_unlines : ∀ {ss : List String}, (∀ s ∈ ss, '\n' ∉ s.toList) → lines (unlines ss) = ss
  | [], _ => rfl
  | s :: ss, h => by
    obtain ⟨hs, hss⟩ := List.forall_mem_cons.mp h
    have ih := lines_unlines hss
    have htext : (unlines (s :: ss)).toList = s.toList ++ '\n' :: (unlines ss).toList := by
      simp [unlines]
    have hline : (s.toList ++ ['\n']).takeWhile (· ≠ '\n') = s.toList := by
      rw [List.takeWhile_append_of_pos]
      · simp
      · intro c hc
        have hne : c ≠ '\n' := fun h => hs (h ▸ hc)
        simpa using hne
    rw [lines, htext, lineSpans_line _ hs, List.map_cons, hline, String.ofList_toList]
    exact congrArg (s :: ·) ih

/-- The first span of a text is a line, or the whole text if no line feed ends it. -/
theorem lineSpans_cons_inv : ∀ {cs l : List Char} {ls : List (List Char)},
    lineSpans cs = l :: ls →
      (∃ a rest, '\n' ∉ a ∧ l = a ++ ['\n'] ∧ lineSpans rest = ls) ∨
        ('\n' ∉ l ∧ l ≠ [] ∧ ls = [])
  | c :: cs, l, ls, h => by
    rw [lineSpans] at h
    split at h
    · next hc =>
      obtain ⟨rfl, rfl⟩ := List.cons.inj h
      exact .inl ⟨[], cs, List.not_mem_nil, by rw [hc]; rfl, rfl⟩
    · next hc =>
      have hne : '\n' ≠ c := fun h => hc h.symm
      cases hcs : lineSpans cs with
      | nil =>
        rw [hcs] at h
        obtain ⟨rfl, rfl⟩ := List.cons.inj h
        exact .inr ⟨by simpa using hne, List.cons_ne_nil _ _, rfl⟩
      | cons m ms =>
        rw [hcs] at h
        obtain ⟨rfl, rfl⟩ := List.cons.inj h
        rcases lineSpans_cons_inv hcs with ⟨a, rest, ha, rfl, hrest⟩ | ⟨hm, -, rfl⟩
        · exact .inl ⟨c :: a, rest, by simpa [hne] using ha, rfl, hrest⟩
        · exact .inr ⟨by simpa [hne] using hm, List.cons_ne_nil _ _, rfl⟩

end SettingsCompiler.Text
