import SettingsCompiler.Docs.Token
import Mathlib.Data.List.Infix

/-!
# Links found by looking ahead

Which words of a comment form a link can be said without the words in hand : a word with a
bracket and as few of the words behind it as close a link, none of them with another bracket
(`Links`, `Scans`). Looking ahead finds one sequence of tokens at most (`Scans.unique`), and
reading the words once finds it (`scans_tokensFrom`).

What is in hand during that pass is a word with a bracket and words that have closed no link
yet (`Opened.IsOpen`, `Opened.IsUnlinked`). So a word that closes a link is the first to do so,
and a word that is given back begins none : the link would have to go on past another bracket.

The tokens spell the words of the text (`Scans.joinWords_spelled`).
-/

namespace SettingsCompiler.Docs

open Text

/-! ## Links -/

/-- `[label](url)tail`, where the label ends at the first `](`, and the target at the first
closing parenthesis behind it. -/
structure IsLink (s label url tail : List Char) : Prop where
  spelled : s = '[' :: (label ++ ']' :: '(' :: (url ++ ')' :: tail))
  label_first : ¬[']', '('] <:+: label
  url_first : ')' ∉ url
  url_ne_nil : url ≠ []
  url_solid : ∀ c ∈ url, isBlank c = false

/-- A word with a bracket and the words `taken` behind it, which have none, form a link. -/
structure Links (w : List Char) (taken : List (List Char)) (lead label url tail : List Char) :
    Prop where
  lead_first : '[' ∉ lead
  taken_closed : ∀ v ∈ taken, '[' ∉ v
  opened : ∃ after, w = lead ++ '[' :: after ∧
    IsLink (joinWords (('[' :: after) :: taken)) label url tail

/-- Some link is formed. -/
def IsLinked (w : List Char) (taken : List (List Char)) : Prop :=
  ∃ lead label url tail, Links w taken lead label url tail

/-- The tokens of words, by looking ahead from each word : it begins a link if it forms one with
words behind it, with as few of them as possible, and is a word of its own otherwise. -/
inductive Scans : List (List Char) → List Token → Prop
  | nil : Scans [] []
  | link {w : List Char} {taken rest : List (List Char)} {lead label url tail : List Char}
      {ts : List Token} (hlink : Links w taken lead label url tail)
      (hleast : ∀ fewer, fewer <+: taken → IsLinked w fewer → fewer = taken)
      (hrest : Scans rest ts) :
      Scans (w :: (taken ++ rest)) (.link (String.ofList lead) (String.ofList label)
        (String.ofList url) (String.ofList tail) :: ts)
  | word {w : List Char} {rest : List (List Char)} {ts : List Token}
      (hnone : ∀ taken, taken <+: rest → ¬IsLinked w taken) (hrest : Scans rest ts) :
      Scans (w :: rest) (.word (String.ofList w) :: ts)

/-- The parts of a text are found where it has the form of a link. -/
theorem linkParts?_eq_some_iff {cs label url tail : List Char} :
    linkParts? cs = some (label, url, tail) ↔ IsLink cs label url tail := by
  constructor
  · intro h
    unfold linkParts? at h
    split at h
    · next body =>
      simp only [Option.bind_eq_bind, Option.bind_some, Option.bind_eq_some_iff] at h
      obtain ⟨⟨l, rest⟩, hclose, ⟨u, t⟩, hparen, h⟩ := h
      split at h
      · cases h
      · next hurl =>
        cases h
        obtain ⟨rfl, hlabel⟩ := splitAtClose_eq_some_iff.mp hclose
        obtain ⟨rfl, hfirst⟩ := splitAtChar_eq_some_iff.mp hparen
        rw [Bool.or_eq_true, not_or, List.isEmpty_iff, Bool.not_eq_true, List.any_eq_false] at hurl
        exact ⟨rfl, hlabel, hfirst, hurl.1, fun c hc => by simpa using hurl.2 c hc⟩
    · cases h
  · rintro ⟨rfl, hlabel, hfirst, hne, hsolid⟩
    have hclose := splitAtClose_eq_some_iff.mpr
      ⟨(rfl : label ++ ']' :: '(' :: (url ++ ')' :: tail) = _), hlabel⟩
    have hparen := splitAtChar_eq_some_iff.mpr ⟨(rfl : url ++ ')' :: tail = _), hfirst⟩
    simpa [linkParts?, hclose, hparen] using And.intro hne hsolid

theorem IsLink.unique {s label url tail label' url' tail' : List Char}
    (h : IsLink s label url tail) (h' : IsLink s label' url' tail') :
    label = label' ∧ url = url' ∧ tail = tail' := by
  have hparts := linkParts?_eq_some_iff.mpr h
  rw [linkParts?_eq_some_iff.mpr h'] at hparts
  cases hparts
  exact ⟨rfl, rfl, rfl⟩

/-- The first place of a character in a text is one place. -/
theorem cut_unique {c : Char} {a b a' b' : List Char} (h : a ++ c :: b = a' ++ c :: b')
    (ha : c ∉ a) (ha' : c ∉ a') : a = a' ∧ b = b' := by
  have hcut := splitAtChar_eq_some_iff.mpr ⟨h, ha'⟩
  rw [splitAtChar_eq_some_iff.mpr ⟨rfl, ha⟩] at hcut
  cases hcut
  exact ⟨rfl, rfl⟩

section Links

variable {w : List Char} {taken : List (List Char)} {lead label url tail : List Char}

theorem Links.mem (h : Links w taken lead label url tail) : '[' ∈ w := by
  obtain ⟨after, rfl, -⟩ := h.opened
  exact List.mem_append_right _ List.mem_cons_self

theorem Links.isLinked (h : Links w taken lead label url tail) : IsLinked w taken :=
  ⟨lead, label, url, tail, h⟩

theorem not_isLinked_of_not_mem (h : '[' ∉ w) : ¬IsLinked w taken :=
  fun ⟨_, _, _, _, hlink⟩ => h hlink.mem

/-- The parts of a link are fixed by its words. -/
theorem Links.unique {lead' label' url' tail' : List Char} (h : Links w taken lead label url tail)
    (h' : Links w taken lead' label' url' tail') :
    lead = lead' ∧ label = label' ∧ url = url' ∧ tail = tail' := by
  obtain ⟨after, rfl, hlink⟩ := h.opened
  obtain ⟨after', hw, hlink'⟩ := h'.opened
  obtain ⟨rfl, rfl⟩ := cut_unique hw h.lead_first h'.lead_first
  exact ⟨rfl, hlink.unique hlink'⟩

end Links

/-- Looking ahead finds at most one sequence of tokens : of two numbers of words that a link
could have, the smaller one is no link by the choice of the larger. -/
theorem Scans.unique {ws : List (List Char)} {ts : List Token} (h : Scans ws ts) :
    ∀ {us : List Token}, Scans ws us → us = ts := by
  induction h with
  | nil =>
    intro us hus
    cases hus
    rfl
  | @link w taken rest lead label url tail ts hlink hleast hrest ih =>
    intro us hus
    generalize hws : w :: (taken ++ rest) = ws at hus
    cases hus with
    | nil => cases hws
    | @link _ taken' rest' _ _ _ _ us hlink' hleast' hrest' =>
      obtain ⟨rfl, hsame⟩ := List.cons.inj hws
      have htaken : taken = taken' := by
        have hpre : taken' <+: taken ++ rest := hsame ▸ List.prefix_append taken' rest'
        rcases List.prefix_or_prefix_of_prefix (List.prefix_append taken rest) hpre with hle | hle
        · exact hleast' taken hle hlink.isLinked
        · exact (hleast taken' hle hlink'.isLinked).symm
      subst htaken
      obtain rfl := List.append_cancel_left hsame
      obtain ⟨rfl, rfl, rfl, rfl⟩ := hlink.unique hlink'
      rw [ih hrest']
    | @word _ _ us hnone hrest' =>
      obtain ⟨rfl, rfl⟩ := List.cons.inj hws
      exact absurd hlink.isLinked (hnone taken (List.prefix_append taken rest))
  | @word w rest ts hnone hrest ih =>
    intro us hus
    generalize hws : w :: rest = ws at hus
    cases hus with
    | nil => cases hws
    | @link _ taken' rest' _ _ _ _ us hlink' hleast' hrest' =>
      obtain ⟨rfl, rfl⟩ := List.cons.inj hws
      exact absurd hlink'.isLinked (hnone taken' (List.prefix_append taken' rest'))
    | @word _ _ us hnone' hrest' =>
      obtain ⟨rfl, rfl⟩ := List.cons.inj hws
      rw [ih hrest']

/-! ## Words in hand -/

namespace Opened

/-- The word with the bracket. -/
def word (o : Opened) : List Char :=
  o.lead ++ o.first

/-- Words in hand : from a word that is cut at its first bracket, over words without one. -/
structure IsOpen (o : Opened) : Prop where
  lead_first : '[' ∉ o.lead
  bracket : ∃ after, o.first = '[' :: after
  closed : ∀ w ∈ o.others, '[' ∉ w

/-- The words in hand have not formed a link, up to any of them. -/
def IsUnlinked (o : Opened) : Prop :=
  ∀ fewer, fewer <+: o.others → ¬IsLinked o.word fewer

/-- The words in hand had not formed a link before the last of them. -/
def IsRecent (o : Opened) : Prop :=
  ∀ fewer, fewer <+: o.others → IsLinked o.word fewer → fewer = o.others

variable {o : Opened}

/-- Words in hand form a link exactly if they do so from the bracket on. -/
theorem IsOpen.links_iff {lead label url tail : List Char} (h : o.IsOpen) :
    Links o.word o.others lead label url tail ↔
      o.lead = lead ∧ IsLink (joinWords (o.first :: o.others)) label url tail := by
  obtain ⟨after, hfirst⟩ := h.bracket
  constructor
  · intro hlink
    obtain ⟨after', hword, hparts⟩ := hlink.opened
    rw [word, hfirst] at hword
    obtain ⟨rfl, rfl⟩ := cut_unique hword h.lead_first hlink.lead_first
    rw [hfirst]
    exact ⟨rfl, hparts⟩
  · rintro ⟨rfl, hparts⟩
    exact ⟨h.lead_first, h.closed, after, by rw [word, hfirst], hfirst ▸ hparts⟩

/-- The token that words in hand close is their link. -/
theorem IsOpen.link?_eq_some (h : o.IsOpen) {t : Token} (ht : o.link? = some t) :
    ∃ lead label url tail, Links o.word o.others lead label url tail ∧
      t = .link (String.ofList lead) (String.ofList label) (String.ofList url)
        (String.ofList tail) := by
  obtain ⟨⟨label, url, tail⟩, hparts, rfl⟩ := Option.map_eq_some_iff.mp ht
  have hlink := h.links_iff.mpr ⟨rfl, linkParts?_eq_some_iff.mp hparts⟩
  exact ⟨o.lead, label, url, tail, hlink, rfl⟩

/-- Words in hand that close no token form no link. -/
theorem IsOpen.not_isLinked (h : o.IsOpen) (ht : o.link? = none) : ¬IsLinked o.word o.others := by
  rintro ⟨lead, label, url, tail, hlink⟩
  have hparts := linkParts?_eq_some_iff.mpr (h.links_iff.mp hlink).2
  rw [link?, hparts] at ht
  cases ht

end Opened

/-! ### Words given back -/

/-- Words without a bracket are words of their own. -/
theorem Scans.append_of_closed {rest : List (List Char)} {ts : List Token} (hrest : Scans rest ts) :
    ∀ {ws : List (List Char)}, (∀ w ∈ ws, '[' ∉ w) →
      Scans (ws ++ rest) (ws.map (fun w => .word (String.ofList w)) ++ ts)
  | [], _ => hrest
  | w :: ws, h => by
    obtain ⟨hw, hws⟩ := List.forall_mem_cons.mp h
    exact .word (fun taken _ => not_isLinked_of_not_mem hw) (hrest.append_of_closed hws)

/-- Words in hand that form no link are given back at the end of the text and at the next
bracket, since no link goes on past that. -/
theorem Scans.giveBack {o : Opened} (ho : o.IsOpen) (hun : o.IsUnlinked)
    {rest : List (List Char)} (hnext : ∀ w, rest.head? = some w → '[' ∈ w) {ts : List Token}
    (hrest : Scans rest ts) : Scans (o.word :: (o.others ++ rest)) (o.giveBack ++ ts) := by
  refine .word (fun taken htaken hlinked => ?_) (hrest.append_of_closed ho.closed)
  rcases List.prefix_or_prefix_of_prefix htaken (List.prefix_append o.others rest) with hle | hle
  · exact hun taken hle hlinked
  · obtain ⟨more, rfl⟩ := hle
    have hmore : more <+: rest := (List.prefix_append_right_inj o.others).mp htaken
    cases more with
    | nil => exact hun _ (by rw [List.append_nil]) hlinked
    | cons w more =>
      obtain ⟨rest, rfl⟩ := hmore
      obtain ⟨_, _, _, _, hlink⟩ := hlinked
      exact hlink.taken_closed w (List.mem_append_right _ List.mem_cons_self) (hnext w rfl)

/-! ### One pass -/

/-- A word comes into hand : if the words in hand form a link now, it is the shortest, and if
not they stay unlinked. -/
theorem Scans.absorb {o : Opened} (ho : o.IsOpen) (hrecent : o.IsRecent) {ws : List (List Char)}
    (hnone : Scans ws (tokensFrom none ws))
    (hsome : o.IsUnlinked → Scans (o.word :: (o.others ++ ws)) (tokensFrom (some o) ws)) :
    Scans (o.word :: (o.others ++ ws)) (match o.link? with
      | some t => t :: tokensFrom none ws
      | none => tokensFrom (some o) ws) := by
  cases ht : o.link? with
  | some t =>
    obtain ⟨lead, label, url, tail, hlink, rfl⟩ := ho.link?_eq_some ht
    exact Scans.link hlink hrecent hnone
  | none =>
    refine hsome fun fewer hfewer hlinked => ho.not_isLinked ht ?_
    rwa [hrecent fewer hfewer hlinked] at hlinked

/-- Reading on finds the tokens of looking ahead, from the words in hand if there are some. -/
theorem scans_tokensFrom : ∀ ws : List (List Char), Scans ws (tokensFrom none ws) ∧
    ∀ o : Opened, o.IsOpen → o.IsUnlinked →
      Scans (o.word :: (o.others ++ ws)) (tokensFrom (some o) ws)
  | [] => by
    refine ⟨Scans.nil, fun o ho hun => ?_⟩
    have hnext : ∀ w, ([] : List (List Char)).head? = some w → '[' ∈ w := by simp
    have hback := Scans.nil.giveBack ho hun hnext
    rwa [List.append_nil o.giveBack] at hback
  | w :: ws => by
    obtain ⟨ihnone, ihsome⟩ := scans_tokensFrom ws
    cases hcut : splitAtChar '[' w with
    | none =>
      have hw : '[' ∉ w := splitAtChar_eq_none_iff.mp hcut
      constructor
      · unfold tokensFrom
        rw [hcut]
        exact .word (fun taken _ => not_isLinked_of_not_mem hw) ihnone
      · intro o ho hun
        let o' : Opened := { o with others := o.others ++ [w] }
        have ho' : o'.IsOpen :=
          ⟨ho.lead_first, ho.bracket, List.forall_mem_append.mpr ⟨ho.closed, by simpa using hw⟩⟩
        have hrecent : o'.IsRecent := by
          intro fewer hfewer hlinked
          rcases List.prefix_concat_iff.mp hfewer with h | h
          · exact h
          · exact absurd hlinked (hun fewer h)
        have habsorb := Scans.absorb ho' hrecent ihnone (ihsome o' ho')
        unfold tokensFrom
        rw [hcut, List.append_cons o.others w ws]
        exact habsorb
    | some cut =>
      obtain ⟨lead, after⟩ := cut
      obtain ⟨rfl, hlead⟩ := splitAtChar_eq_some_iff.mp hcut
      let o' : Opened := ⟨lead, '[' :: after, []⟩
      have ho' : o'.IsOpen := ⟨hlead, ⟨after, rfl⟩, nofun⟩
      have hrecent : o'.IsRecent := fun fewer hfewer _ => List.prefix_nil.mp hfewer
      have habsorb := Scans.absorb ho' hrecent ihnone (ihsome o' ho')
      constructor
      · unfold tokensFrom
        rw [hcut]
        exact habsorb
      · intro o ho hun
        unfold tokensFrom
        rw [hcut]
        refine Scans.giveBack ho hun ?_ habsorb
        intro v hv
        cases hv
        exact List.mem_append_right _ List.mem_cons_self

/-! ## Spelling -/

/-- A token as it stands in the text. -/
def Token.spelled : Token → List Char
  | .word text => text.toList
  | .link lead label url tail =>
    lead.toList ++ '[' :: (label.toList ++ ']' :: '(' :: (url.toList ++ ')' :: tail.toList))

theorem joinWords_cons (w : List Char) {ws : List (List Char)} (h : ws ≠ []) :
    joinWords (w :: ws) = w ++ ' ' :: joinWords ws := by
  obtain ⟨v, ws, rfl⟩ := List.exists_cons_of_ne_nil h
  rfl

theorem joinWords_append {vs : List (List Char)} (hvs : vs ≠ []) :
    ∀ {ws : List (List Char)}, ws ≠ [] →
      joinWords (ws ++ vs) = joinWords ws ++ ' ' :: joinWords vs
  | [w], _ => joinWords_cons w hvs
  | w :: v :: ws, _ => by
    have ih := joinWords_append hvs (List.cons_ne_nil v ws)
    rw [List.cons_append, joinWords_cons w (List.append_ne_nil_of_left_ne_nil (by simp) vs), ih,
      joinWords_cons w (List.cons_ne_nil v ws), List.append_assoc, List.cons_append]

/-- A link spells its words. -/
theorem Links.joinWords_eq {w : List Char} {taken : List (List Char)}
    {lead label url tail : List Char} (h : Links w taken lead label url tail) :
    joinWords (w :: taken) = lead ++ '[' :: (label ++ ']' :: '(' :: (url ++ ')' :: tail)) := by
  obtain ⟨after, rfl, hlink⟩ := h.opened
  rw [← hlink.spelled]
  cases taken with
  | nil => rfl
  | cons v taken =>
    rw [joinWords_cons _ (List.cons_ne_nil v taken), joinWords_cons _ (List.cons_ne_nil v taken),
      List.append_assoc]

theorem Scans.eq_nil_iff {ws : List (List Char)} {ts : List Token} (h : Scans ws ts) :
    ws = [] ↔ ts = [] := by
  cases h <;> simp

/-- No word is lost, doubled or moved. -/
theorem Scans.joinWords_spelled {ws : List (List Char)} {ts : List Token} (h : Scans ws ts) :
    joinWords (ts.map Token.spelled) = joinWords ws := by
  induction h with
  | nil => rfl
  | @link w taken rest lead label url tail ts hlink hleast hrest ih =>
    have hspelled : Token.spelled (.link (String.ofList lead) (String.ofList label)
        (String.ofList url) (String.ofList tail)) = joinWords (w :: taken) := by
      simp only [Token.spelled, String.toList_ofList]
      exact hlink.joinWords_eq.symm
    rw [List.map_cons, hspelled, ← List.cons_append]
    by_cases hnil : rest = []
    · rw [hnil, hrest.eq_nil_iff.mp hnil, List.append_nil]
      rfl
    · have hts : ts.map Token.spelled ≠ [] := by simpa using mt hrest.eq_nil_iff.mpr hnil
      rw [joinWords_cons _ hts, joinWords_append hnil (List.cons_ne_nil w taken), ih]
  | @word w rest ts hnone hrest ih =>
    rw [List.map_cons, Token.spelled, String.toList_ofList]
    by_cases hnil : rest = []
    · rw [hnil, hrest.eq_nil_iff.mp hnil]
      rfl
    · have hts : ts.map Token.spelled ≠ [] := by simpa using mt hrest.eq_nil_iff.mpr hnil
      rw [joinWords_cons _ hts, joinWords_cons w hnil, ih]

/-- The tokens of a text are those that looking ahead finds, and it finds no others. Spelled and
put together, they are the words of the text. -/
theorem tokenize_looksAhead (text : String) :
    (∀ ts, Scans (words text.toList) ts ↔ ts = tokenize text) ∧
      joinWords ((tokenize text).map Token.spelled) = joinWords (words text.toList) := by
  have hscans : Scans (words text.toList) (tokenize text) := (scans_tokensFrom _).1
  refine ⟨fun ts => ⟨fun h => hscans.unique h, ?_⟩, hscans.joinWords_spelled⟩
  rintro rfl
  exact hscans

example : tokenize "see [a ([the docs](u))." =
    [.word "see", .word "[a", .link "(" "the docs" "u" ")."] := by decide

end SettingsCompiler.Docs
