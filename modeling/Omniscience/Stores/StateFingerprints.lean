import Omniscience.Lib.PyRepr
import Omniscience.Stores.Neo4j

/-!
# What a state fingerprint tells apart

The bitemporal writers compare a state with the one before by the hash of a text.  `_stable_repr`
quotes the strings among the values of a dictionary and not its keys, so that a key may hold what
looks like the end of a member.  `fingerprints_tell` says that two texts are equal for equal states
only, unless a key of one state hides structure of the other (`Hides`).
-/

namespace Omniscience.Neo4j

open List

open Outbox List
open PyRepr (Delimited reprStr token IsToken)
open JsonText (sorted sortedItems sortedMembers IsFloatText)

/-! ### Texts -/

/-- `repr` shows the scalars as Python does. -/
structure Reprs (py : Py) (isPrintable : Char → Bool) : Prop where
  str : ∀ s : String, py.repr (.str s) = String.ofList (reprStr isPrintable s.toList)
  token : ∀ v, IsToken v → py.repr v = String.ofList (token v)

/-- The values of Python: a float has the text of one, and a dictionary has no key twice. -/
inductive IsValue : Json → Prop
  | null : IsValue .null
  | bool (b : Bool) : IsValue (.bool b)
  | int (n : ℤ) : IsValue (.int n)
  | float {text : String} (h : IsFloatText text) : IsValue (.float text)
  | str (s : String) : IsValue (.str s)
  | arr {items : List Json} (h : ∀ v ∈ items, IsValue v) : IsValue (.arr items)
  | obj {members : List (String × Json)} (hkeys : (members.map Prod.fst).Nodup)
    (h : ∀ m ∈ members, IsValue m.2) : IsValue (.obj members)

variable (py : Py)

/-- The text of a value. -/
def text (v : Json) : List Char := (stableRepr py v).toList

/-- The text of a member. -/
def memberText (m : String × Json) : List Char := m.1.toList ++ ':' :: text py m.2

/-- The key holds what may be read as the member up to its delimiter, or as the colon and the
beginning of the value of the member. -/
def Swallows (key : String) (m : String × Json) : Prop :=
  ∃ t, key.toList = m.1.toList ++ ':' :: t ∧
    (t ++ [':'] <+: text py m.2 ∨ text py m.2 ++ [','] <+: t ∨ text py m.2 ++ ['\x7d'] <+: t)

/-- At the same place of two values, a key of the second holds what may be read as structure of the
first: a member with another key, or the end of an empty dictionary. -/
inductive Hides : Json → Json → Prop
  | swallow {ms ms' : List (String × Json)} {m m' : String × Json} (hm : m ∈ ms) (hm' : m' ∈ ms')
    (h : Swallows py m'.1 m) : Hides (.obj ms) (.obj ms')
  | close {ms' : List (String × Json)} {m' : String × Json} (hm' : m' ∈ ms')
    (h : ['\x7d'] <+: m'.1.toList) : Hides (.obj []) (.obj ms')
  | member {ms ms' : List (String × Json)} {k : String} {v w : Json} (hv : (k, v) ∈ ms)
    (hw : (k, w) ∈ ms') (h : Hides v w) : Hides (.obj ms) (.obj ms')
  | item {vs ws : List Json} {i : ℕ} {v w : Json} (hv : vs[i]? = some v) (hw : ws[i]? = some w)
    (h : Hides v w) : Hides (.arr vs) (.arr ws)

/-- What `_entity_state_fingerprint` feeds to the hash. -/
def entityPayload (entity : EntityUpsert) : String :=
  let chunkId := match entity.chunkId with
    | some chunkId => Json.str chunkId.str
    | none => .null
  joinWith "|" [stableRepr py (.str entity.entityType), stableRepr py (.str entity.name),
    stableRepr py (.str entity.displayName), stableRepr py (.str entity.sourceId.str),
    stableRepr py chunkId, stableRepr py (.obj entity.metadata)]

/-- What `_edge_state_fingerprint` feeds to the hash. -/
def edgePayload (edgeType sourceId : String) (metadata : Metadata) : String :=
  joinWith "|" [stableRepr py (.str edgeType), stableRepr py (.str sourceId),
    stableRepr py (.obj metadata)]

/-! ### How the texts are made -/

/-- Texts with commas between them. -/
def joined : List (List Char) → List Char
  | [] => []
  | t :: ts => t ++ ts.flatMap fun t => ',' :: t

theorem toList_joinWith (l : List String) :
    (joinWith "," l).toList = joined (l.map String.toList) := by
  induction l with
  | nil => rfl
  | cons s l ih =>
    cases l with
    | nil => simp [joinWith, joined]
    | cons s' l =>
      rw [joinWith, String.toList_append, String.toList_append, ih]
      · simp [joined]
      · exact nofun

variable {py} {isPrintable : Char → Bool}

theorem text_str (hpy : Reprs py isPrintable) (s : String) :
    text py (.str s) = reprStr isPrintable s.toList := by
  rw [text, stableRepr, hpy.str, String.toList_ofList]
  all_goals exact nofun

variable {v : Json}

theorem text_token (hpy : Reprs py isPrintable) (h : IsToken v) : text py v = token v := by
  have hrepr := congrArg String.toList (hpy.token v h)
  rw [String.toList_ofList] at hrepr
  cases v with
  | null => rfl
  | bool b =>
    rw [text, stableRepr]
    · exact hrepr
    all_goals exact nofun
  | int n =>
    rw [text, stableRepr]
    · exact hrepr
    all_goals exact nofun
  | float t =>
    rw [text, stableRepr]
    · exact hrepr
    all_goals exact nofun
  | str s => cases h
  | arr items => cases h
  | obj members => cases h

theorem stableReprItems_eq (items : List Json) :
    stableReprItems py items = items.map (stableRepr py) := by
  induction items with
  | nil => rfl
  | cons v vs ih => rw [stableReprItems, ih, map_cons]

theorem stableReprMembers_eq (members : List (String × Json)) :
    stableReprMembers py members = members.map fun m => (m.1, stableRepr py m.2) := by
  induction members with
  | nil => rfl
  | cons m ms ih => rw [stableReprMembers, ih, map_cons]

theorem text_arr (items : List Json) :
    text py (.arr items) = '[' :: (joined (items.map (text py)) ++ [']']) := by
  rw [text, stableRepr, stableReprItems_eq, String.toList_append, String.toList_append,
    toList_joinWith, map_map]
  rfl

theorem exists_text_obj (py : Py) {members : List (String × Json)}
    (hkeys : (members.map Prod.fst).Nodup) :
    ∃ ms : List (String × Json), ms.Perm members ∧ ms.Pairwise (fun m m' => m.1 < m'.1) ∧
      text py (.obj members) = '\x7b' :: (joined (ms.map (memberText py)) ++ ['\x7d']) := by
  let shown (m : String × Json) : String × String := (m.1, stableRepr py m.2)
  let before (m m' : String × Json) : Bool := toLex (shown m) ≤ toLex (shown m')
  have hperm : (members.mergeSort before).Perm members := mergeSort_perm members before
  refine ⟨members.mergeSort before, hperm, ?_, ?_⟩
  · have hsorted : (members.mergeSort before).Pairwise fun m m' => before m m' = true := by
      refine pairwise_mergeSort (fun a b c hab hbc => ?_) (fun a b => ?_) members
      · exact decide_eq_true ((of_decide_eq_true hab).trans (of_decide_eq_true hbc))
      · rw [Bool.or_eq_true, decide_eq_true_eq, decide_eq_true_eq]
        exact le_total _ _
    have hdistinct : (members.mergeSort before).Pairwise fun m m' => m.1 ≠ m'.1 :=
      pairwise_map.1 ((hperm.map Prod.fst).nodup_iff.2 hkeys)
    refine (hsorted.and hdistinct).imp fun {m m'} h => ?_
    obtain hlt | ⟨heq, -⟩ := Prod.Lex.le_iff.1 (of_decide_eq_true h.1)
    · exact hlt
    · exact absurd heq h.2
  · have hmap : (members.mergeSort before).map shown =
        (members.map shown).mergeSort fun a b => toLex a ≤ toLex b :=
      map_mergeSort fun _ _ _ _ => rfl
    have htext : (String.toList ∘ fun item : String × String => item.1 ++ ":" ++ item.2) ∘ shown =
        memberText py := by
      funext m
      simp [shown, memberText, text]
    rw [text, stableRepr, stableReprMembers_eq, ← hmap, String.toList_append, String.toList_append,
      toList_joinWith, map_map, map_map, htext]
    rfl

/-! ### Reading a text -/

/-- What a value begins with tells apart dictionaries, lists, strings and the rest, and none begins
with the end of a list. -/
def shapeOf (c : Char) : ℕ :=
  if c = ']' then 4
  else if c = '\x7b' then 3
  else if c = '[' then 2
  else if c = '\'' ∨ c = '"' then 1 else 0

/-- The shape of a value. -/
def shape : Json → ℕ
  | .obj _ => 3
  | .arr _ => 2
  | .str _ => 1
  | _ => 0

theorem shapeOf_of_isPlain {c : Char} (h : PyRepr.isPlain c = true) : shapeOf c = 0 := by
  rw [shapeOf]
  split_ifs with h₁ h₂ h₃ h₄
  · subst h₁
    cases h
  · subst h₂
    cases h
  · subst h₃
    cases h
  · obtain rfl | rfl := h₄
    · cases h
    · cases h
  · rfl

theorem exists_text_token (hpy : Reprs py isPrintable) (h : IsToken v) (hshape : shape v = 0) :
    ∃ c cs, text py v = c :: cs ∧ shapeOf c = shape v := by
  rw [text_token hpy h, hshape]
  cases htoken : token v with
  | nil => exact absurd htoken (PyRepr.token_ne_nil h)
  | cons c cs =>
    refine ⟨c, cs, rfl, shapeOf_of_isPlain (PyRepr.isPlain_token h c ?_)⟩
    rw [htoken]
    exact mem_cons_self

theorem exists_text_cons (hpy : Reprs py isPrintable) (h : IsValue v) :
    ∃ c cs, text py v = c :: cs ∧ shapeOf c = shape v := by
  cases h with
  | null => exact exists_text_token hpy (v := .null) trivial rfl
  | bool b => exact exists_text_token hpy (v := .bool b) trivial rfl
  | int n => exact exists_text_token hpy (v := .int n) trivial rfl
  | float htext => exact exists_text_token hpy (v := .float _) htext rfl
  | str s =>
    refine ⟨_, _, text_str hpy s, ?_⟩
    obtain hquote | hquote := PyRepr.quoteOf_cases s.toList
    · rw [hquote]
      rfl
    · rw [hquote]
      rfl
  | arr h => exact ⟨_, _, text_arr _, rfl⟩
  | obj hkeys h =>
    obtain ⟨ms, -, -, htext⟩ := exists_text_obj py hkeys
    exact ⟨_, _, htext, rfl⟩

theorem shape_eq (hpy : Reprs py isPrintable) {v w : Json} (hv : IsValue v) (hw : IsValue w)
    {x y : List Char} (h : text py v ++ x = text py w ++ y) : shape v = shape w := by
  obtain ⟨c, cs, hc, hshape⟩ := exists_text_cons hpy hv
  obtain ⟨d, ds, hd, hshape'⟩ := exists_text_cons hpy hw
  rw [hc, hd] at h
  rw [← hshape, ← hshape', (cons.inj h).1]

theorem text_append_ne_close (hpy : Reprs py isPrintable) (hv : IsValue v) (x y : List Char) :
    text py v ++ x ≠ ']' :: y := by
  obtain ⟨c, cs, hc, hshape⟩ := exists_text_cons hpy hv
  intro h
  rw [hc] at h
  obtain ⟨rfl, -⟩ := cons.inj h
  cases v with
  | null => cases hshape
  | bool b => cases hshape
  | int n => cases hshape
  | float t => cases hshape
  | str s => cases hshape
  | arr items => cases hshape
  | obj members => cases hshape

/-- The text goes on with the next member, or the dictionary ends. -/
def EndsMember (rest : List Char) : Prop := ∃ c cs, rest = c :: cs ∧ (c = ',' ∨ c = '\x7d')

theorem EndsMember.delimited {rest : List Char} (h : EndsMember rest) : Delimited rest := by
  obtain ⟨c, cs, rfl, rfl | rfl⟩ := h
  · rintro _ ⟨⟩
    rfl
  · rintro _ ⟨⟩
    rfl

theorem EndsMember.ne_colon {rest cs : List Char} (h : EndsMember rest) : rest ≠ ':' :: cs := by
  obtain ⟨c, cs', rfl, rfl | rfl⟩ := h
  · exact fun heq => absurd (cons.inj heq).1 (by decide)
  · exact fun heq => absurd (cons.inj heq).1 (by decide)

theorem swallows_of_append {key : String} {m : String × Json} {t rest rest' : List Char}
    (hkey : key.toList = m.1.toList ++ ':' :: t) (hrest : EndsMember rest)
    (h : text py m.2 ++ rest = t ++ ':' :: rest') : Swallows py key m := by
  refine ⟨t, hkey, ?_⟩
  obtain ⟨a, ht, hafter⟩ | ⟨a, htext, hafter⟩ := append_eq_append_iff.1 h
  · -- the value ends within the key
    cases a with
    | nil => exact absurd hafter hrest.ne_colon
    | cons c a =>
      obtain ⟨d, ds, hd, hdelimiter⟩ := hrest
      rw [hd] at hafter
      obtain ⟨rfl, -⟩ := cons.inj hafter
      rw [ht]
      obtain rfl | rfl := hdelimiter
      · exact .inr (.inl ⟨a, by rw [append_assoc, singleton_append]⟩)
      · exact .inr (.inr ⟨a, by rw [append_assoc, singleton_append]⟩)
  · cases a with
    | nil => exact absurd hafter.symm hrest.ne_colon
    | cons c a =>
      obtain ⟨rfl, -⟩ := cons.inj hafter
      exact .inl ⟨a, by rw [htext, append_assoc, singleton_append]⟩

/-- What is shown of the value can be told from any other one, up to what follows. -/
def Told (py : Py) (v w : Json) : Prop :=
  ∀ x y : List Char, Delimited x → Delimited y → text py v ++ x = text py w ++ y →
    sorted v = sorted w ∧ x = y

theorem memberText_append_inj {m m' : String × Json} {r r' : List Char}
    (htold : m.1 = m'.1 → Told py m.2 m'.2) (hm : ¬ Swallows py m'.1 m)
    (hm' : ¬ Swallows py m.1 m') (hr : EndsMember r) (hr' : EndsMember r')
    (h : memberText py m ++ r = memberText py m' ++ r') :
    m.1 = m'.1 ∧ sorted m.2 = sorted m'.2 ∧ r = r' := by
  rw [memberText, memberText, append_assoc, append_assoc, cons_append, cons_append] at h
  obtain ⟨a, hkey, hrest⟩ | ⟨a, hkey, hrest⟩ := append_eq_append_iff.1 h
  · cases a with
    | nil =>
      rw [append_nil] at hkey
      have hkey := (String.toList_inj.1 hkey).symm
      exact ⟨hkey, htold hkey _ _ hr.delimited hr'.delimited (cons.inj hrest).2⟩
    | cons c t =>
      rw [cons_append] at hrest
      obtain ⟨rfl, hafter⟩ := cons.inj hrest
      exact absurd (swallows_of_append hkey hr hafter) hm
  · cases a with
    | nil =>
      rw [append_nil] at hkey
      have hkey := String.toList_inj.1 hkey
      exact ⟨hkey, htold hkey _ _ hr.delimited hr'.delimited (cons.inj hrest).2.symm⟩
    | cons c t =>
      rw [cons_append] at hrest
      obtain ⟨rfl, hafter⟩ := cons.inj hrest
      exact absurd (swallows_of_append hkey hr' hafter) hm'

/-- The members after the first. -/
def moreMembers (py : Py) (ms : List (String × Json)) : List Char :=
  ms.flatMap fun m => ',' :: memberText py m

theorem endsMember_moreMembers (ms : List (String × Json)) (x : List Char) :
    EndsMember (moreMembers py ms ++ '\x7d' :: x) := by
  cases ms with
  | nil => exact ⟨_, _, rfl, .inr rfl⟩
  | cons m ms => exact ⟨_, _, rfl, .inl rfl⟩

/-- Two lists of members of which no key swallows a member of the other. -/
structure Apart (py : Py) (ms ms' : List (String × Json)) : Prop where
  told : ∀ m ∈ ms, ∀ m' ∈ ms', m.1 = m'.1 → Told py m.2 m'.2
  left : ∀ m ∈ ms, ∀ m' ∈ ms', ¬ Swallows py m'.1 m
  right : ∀ m ∈ ms, ∀ m' ∈ ms', ¬ Swallows py m.1 m'

variable {ms ms' : List (String × Json)}

theorem Apart.tail {m m' : String × Json} (h : Apart py (m :: ms) (m' :: ms')) :
    Apart py ms ms' where
  told a ha b hb := h.told a (mem_cons_of_mem _ ha) b (mem_cons_of_mem _ hb)
  left a ha b hb := h.left a (mem_cons_of_mem _ ha) b (mem_cons_of_mem _ hb)
  right a ha b hb := h.right a (mem_cons_of_mem _ ha) b (mem_cons_of_mem _ hb)

theorem moreMembers_append_inj {x y : List Char} (hapart : Apart py ms ms')
    (h : moreMembers py ms ++ '\x7d' :: x = moreMembers py ms' ++ '\x7d' :: y) :
    (ms.map fun m => (m.1, sorted m.2)) = (ms'.map fun m => (m.1, sorted m.2)) ∧ x = y := by
  induction ms generalizing ms' with
  | nil =>
    cases ms' with
    | nil => exact ⟨rfl, (cons.inj h).2⟩
    | cons m' ms' => exact absurd (cons.inj h).1 (by decide)
  | cons m ms ih =>
    cases ms' with
    | nil => exact absurd (cons.inj h).1 (by decide)
    | cons m' ms' =>
      rw [moreMembers, moreMembers, flatMap_cons, flatMap_cons, cons_append, cons_append,
        cons_append, cons_append, append_assoc, append_assoc] at h
      obtain ⟨hkey, hvalue, hrest⟩ := memberText_append_inj
        (hapart.told m mem_cons_self m' mem_cons_self)
        (hapart.left m mem_cons_self m' mem_cons_self)
        (hapart.right m mem_cons_self m' mem_cons_self)
        (endsMember_moreMembers ms x) (endsMember_moreMembers ms' y) (cons.inj h).2
      obtain ⟨hmembers, hxy⟩ := ih hapart.tail hrest
      rw [map_cons, map_cons, hkey, hvalue, hmembers]
      exact ⟨rfl, hxy⟩

theorem joined_memberText (m : String × Json) (ms : List (String × Json)) :
    joined ((m :: ms).map (memberText py)) = memberText py m ++ moreMembers py ms := by
  rw [map_cons, joined, flatMap_map]
  rfl

theorem prefix_of_close {m : String × Json} {x r : List Char}
    (h : '\x7d' :: x = memberText py m ++ r) : ['\x7d'] <+: m.1.toList := by
  rw [memberText] at h
  cases hkey : m.1.toList with
  | nil =>
    rw [hkey] at h
    exact absurd (cons.inj h).1 (by decide)
  | cons c cs =>
    rw [hkey] at h
    obtain ⟨rfl, -⟩ := cons.inj h
    exact ⟨cs, rfl⟩

theorem joined_members_inj {x y : List Char} (hapart : Apart py ms ms')
    (hclose : ms = [] → ∀ m' ∈ ms', ¬ ['\x7d'] <+: m'.1.toList)
    (hclose' : ms' = [] → ∀ m ∈ ms, ¬ ['\x7d'] <+: m.1.toList)
    (h : joined (ms.map (memberText py)) ++ '\x7d' :: x = joined (ms'.map (memberText py)) ++ '\x7d' :: y)
    :
    (ms.map fun m => (m.1, sorted m.2)) = (ms'.map fun m => (m.1, sorted m.2)) ∧ x = y := by
  cases ms with
  | nil =>
    cases ms' with
    | nil => exact ⟨rfl, (cons.inj h).2⟩
    | cons m' ms' =>
      rw [joined_memberText, append_assoc] at h
      exact absurd (prefix_of_close h) (hclose rfl m' mem_cons_self)
  | cons m ms =>
    cases ms' with
    | nil =>
      rw [joined_memberText, append_assoc] at h
      exact absurd (prefix_of_close h.symm) (hclose' rfl m mem_cons_self)
    | cons m' ms' =>
      rw [joined_memberText, joined_memberText, append_assoc, append_assoc] at h
      obtain ⟨hkey, hvalue, hrest⟩ := memberText_append_inj
        (hapart.told m mem_cons_self m' mem_cons_self)
        (hapart.left m mem_cons_self m' mem_cons_self)
        (hapart.right m mem_cons_self m' mem_cons_self)
        (endsMember_moreMembers ms x) (endsMember_moreMembers ms' y) h
      obtain ⟨hmembers, hxy⟩ := moreMembers_append_inj hapart.tail hrest
      rw [map_cons, map_cons, hkey, hvalue, hmembers]
      exact ⟨rfl, hxy⟩

/-- The items after the first. -/
def moreItems (py : Py) (vs : List Json) : List Char := vs.flatMap fun v => ',' :: text py v

theorem delimited_moreItems (vs : List Json) (x : List Char) :
    Delimited (moreItems py vs ++ ']' :: x) := by
  cases vs with
  | nil =>
    rintro _ ⟨⟩
    rfl
  | cons v vs =>
    rintro _ ⟨⟩
    rfl

theorem joined_text (v : Json) (vs : List Json) :
    joined ((v :: vs).map (text py)) = text py v ++ moreItems py vs := by
  rw [map_cons, joined, flatMap_map]
  rfl

theorem moreItems_append_inj {vs ws : List Json} {x y : List Char}
    (htold : ∀ (i : ℕ) v w, vs[i]? = some v → ws[i]? = some w → Told py v w)
    (h : moreItems py vs ++ ']' :: x = moreItems py ws ++ ']' :: y) :
    sortedItems vs = sortedItems ws ∧ x = y := by
  induction vs generalizing ws with
  | nil =>
    cases ws with
    | nil => exact ⟨rfl, (cons.inj h).2⟩
    | cons w ws => exact absurd (cons.inj h).1 (by decide)
  | cons v vs ih =>
    cases ws with
    | nil => exact absurd (cons.inj h).1 (by decide)
    | cons w ws =>
      rw [moreItems, moreItems, flatMap_cons, flatMap_cons, cons_append, cons_append, cons_append,
        cons_append, append_assoc, append_assoc] at h
      obtain ⟨hvalue, hrest⟩ := htold 0 v w rfl rfl _ _ (delimited_moreItems vs x)
        (delimited_moreItems ws y) (cons.inj h).2
      obtain ⟨hitems, hxy⟩ := ih (fun (i : ℕ) v w hv hw => htold (i + 1) v w hv hw) hrest
      rw [sortedItems, sortedItems, hvalue, hitems]
      exact ⟨rfl, hxy⟩

theorem joined_items_inj (hpy : Reprs py isPrintable) {vs ws : List Json} {x y : List Char}
    (hvs : ∀ v ∈ vs, IsValue v) (hws : ∀ w ∈ ws, IsValue w)
    (htold : ∀ (i : ℕ) v w, vs[i]? = some v → ws[i]? = some w → Told py v w)
    (h : joined (vs.map (text py)) ++ ']' :: x = joined (ws.map (text py)) ++ ']' :: y) :
    sortedItems vs = sortedItems ws ∧ x = y := by
  cases vs with
  | nil =>
    cases ws with
    | nil => exact ⟨rfl, (cons.inj h).2⟩
    | cons w ws =>
      rw [joined_text, append_assoc] at h
      exact absurd h.symm (text_append_ne_close hpy (hws w mem_cons_self) _ _)
  | cons v vs =>
    cases ws with
    | nil =>
      rw [joined_text, append_assoc] at h
      exact absurd h (text_append_ne_close hpy (hvs v mem_cons_self) _ _)
    | cons w ws =>
      rw [joined_text, joined_text, append_assoc, append_assoc] at h
      obtain ⟨hvalue, hrest⟩ := htold 0 v w rfl rfl _ _ (delimited_moreItems vs x)
        (delimited_moreItems ws y) h
      obtain ⟨hitems, hxy⟩ :=
        moreItems_append_inj (fun (i : ℕ) v w hv hw => htold (i + 1) v w hv hw) hrest
      rw [sortedItems, sortedItems, hvalue, hitems]
      exact ⟨rfl, hxy⟩

/-! ### Values -/

theorem isToken_of_shape (h : IsValue v) (hshape : shape v = 0) : IsToken v := by
  cases h with
  | null => trivial
  | bool b => trivial
  | int n => trivial
  | float htext => exact htext
  | str s => cases hshape
  | arr h => cases hshape
  | obj hkeys h => cases hshape

theorem told_token (hpy : Reprs py isPrintable) {v w : Json} (hv : IsValue v) (hw : IsValue w)
    (hshape : shape v = 0) : Told py v w := by
  intro x y hx hy h
  have hv' := isToken_of_shape hv hshape
  have hw' := isToken_of_shape hw ((shape_eq hpy hv hw h).symm.trans hshape)
  rw [text_token hpy hv', text_token hpy hw'] at h
  obtain ⟨rfl, hxy⟩ := PyRepr.token_append_inj hv' hw' hx hy h
  exact ⟨rfl, hxy⟩

/-- **Texts tell values apart**, unless a key of one hides structure of the other. -/
theorem told (hpy : Reprs py isPrintable) (hv : IsValue v) :
    ∀ {w : Json}, IsValue w → ¬ Hides py v w → ¬ Hides py w v → Told py v w := by
  induction hv with
  | null => exact fun hw _ _ => told_token hpy .null hw rfl
  | bool b => exact fun hw _ _ => told_token hpy (.bool b) hw rfl
  | int n => exact fun hw _ _ => told_token hpy (.int n) hw rfl
  | float htext => exact fun hw _ _ => told_token hpy (.float htext) hw rfl
  | str s =>
    intro w hw _ _ x y _ _ h
    have hshape := shape_eq hpy (.str s) hw h
    cases hw with
    | str t =>
      rw [text_str hpy, text_str hpy] at h
      obtain ⟨hst, hxy⟩ := PyRepr.reprStr_append_inj h
      exact ⟨congrArg (fun s => sorted (.str s)) (String.toList_inj.1 hst), hxy⟩
    | null => cases hshape
    | bool b => cases hshape
    | int n => cases hshape
    | float htext => cases hshape
    | arr hws => cases hshape
    | obj hkeys hms => cases hshape
  | @arr vs hvs ih =>
    intro w hw hhides hhides' x y _ _ h
    have hshape := shape_eq hpy (.arr hvs) hw h
    cases hw with
    | @arr ws hws =>
      rw [text_arr, text_arr, cons_append, cons_append, append_assoc, append_assoc] at h
      have htold : ∀ (i : ℕ) v w, vs[i]? = some v → ws[i]? = some w → Told py v w := by
        intro i v w hv hw
        exact ih v (mem_of_getElem? hv) (hws w (mem_of_getElem? hw))
          (fun hvw => hhides (.item hv hw hvw)) (fun hwv => hhides' (.item hw hv hwv))
      obtain ⟨hitems, hxy⟩ := joined_items_inj hpy hvs hws htold (cons.inj h).2
      exact ⟨congrArg Json.arr hitems, hxy⟩
    | null => cases hshape
    | bool b => cases hshape
    | int n => cases hshape
    | float htext => cases hshape
    | str s => cases hshape
    | obj hkeys hms => cases hshape
  | @obj ms hkeys hms ih =>
    intro w hw hhides hhides' x y _ _ h
    have hshape := shape_eq hpy (.obj hkeys hms) hw h
    cases hw with
    | @obj ms' hkeys' hms' =>
      obtain ⟨l, hperm, -, htext⟩ := exists_text_obj py hkeys
      obtain ⟨l', hperm', -, htext'⟩ := exists_text_obj py hkeys'
      rw [htext, htext', cons_append, cons_append, append_assoc, append_assoc] at h
      have hapart : Apart py l l' := by
        refine ⟨fun m hm m' hm' hkey => ?_, fun m hm m' hm' hswallows => ?_,
          fun m hm m' hm' hswallows => ?_⟩
        · obtain ⟨k, v⟩ := m
          obtain ⟨k', w⟩ := m'
          have hv := hperm.mem_iff.1 hm
          have hw := hperm'.mem_iff.1 hm'
          obtain rfl : k = k' := hkey
          exact ih _ hv (hms' _ hw) (fun hvw => hhides (.member hv hw hvw))
            (fun hwv => hhides' (.member hw hv hwv))
        · exact hhides (.swallow (hperm.mem_iff.1 hm) (hperm'.mem_iff.1 hm') hswallows)
        · exact hhides' (.swallow (hperm'.mem_iff.1 hm') (hperm.mem_iff.1 hm) hswallows)
      have hclose : l = [] → ∀ m' ∈ l', ¬ ['\x7d'] <+: m'.1.toList := by
        rintro rfl m' hm' hclose
        rw [nil_perm.1 hperm] at hhides
        exact hhides (.close (hperm'.mem_iff.1 hm') hclose)
      have hclose' : l' = [] → ∀ m ∈ l, ¬ ['\x7d'] <+: m.1.toList := by
        rintro rfl m hm hclose
        rw [nil_perm.1 hperm'] at hhides'
        exact hhides' (.close (hperm.mem_iff.1 hm) hclose)
      obtain ⟨hmembers, hxy⟩ := joined_members_inj hapart hclose hclose' (cons.inj h).2
      have hmap := hperm.map fun m => (m.1, sorted m.2)
      rw [hmembers] at hmap
      exact ⟨congrArg Json.obj (JsonText.sortedMembers_eq_of_perm hkeys
        (hmap.symm.trans (hperm'.map _))), hxy⟩
    | null => cases hshape
    | bool b => cases hshape
    | int n => cases hshape
    | float htext => cases hshape
    | str s => cases hshape
    | arr hws => cases hshape

/-! ### Payloads -/

/-- Neither of two dictionaries of metadata hides structure of the other. -/
def Clear (py : Py) (m m' : Metadata) : Prop :=
  ¬ Hides py (.obj m) (.obj m') ∧ ¬ Hides py (.obj m') (.obj m)

/-- What is fed to the hash of two entities is equal only if their content is. -/
def EntitiesTold (py : Py) (a b : EntityUpsert) : Prop :=
  entityPayload py a = entityPayload py b →
    a.entityType = b.entityType ∧ a.name = b.name ∧ a.displayName = b.displayName ∧
      a.sourceId = b.sourceId ∧ a.chunkId = b.chunkId ∧
      sorted (.obj a.metadata) = sorted (.obj b.metadata)

/-- What is fed to the hash of two edges is equal only if their content is. -/
def EdgesTold (py : Py) (edgeType edgeType' sourceId sourceId' : String) (m m' : Metadata) : Prop :=
  edgePayload py edgeType sourceId m = edgePayload py edgeType' sourceId' m' →
    edgeType = edgeType' ∧ sourceId = sourceId' ∧ sorted (.obj m) = sorted (.obj m')

theorem Told.bar {v w : Json} (h : Told py v w) {x y : List Char}
    (heq : text py v ++ '|' :: x = text py w ++ '|' :: y) : sorted v = sorted w ∧ x = y := by
  have hdelimited : ∀ x, Delimited ('|' :: x) := by
    rintro x _ ⟨⟩
    rfl
  obtain ⟨hvalue, hrest⟩ := h _ _ (hdelimited x) (hdelimited y) heq
  exact ⟨hvalue, (cons.inj hrest).2⟩

theorem Told.last {v w : Json} (h : Told py v w) (heq : text py v = text py w) :
    sorted v = sorted w := by
  have heq : text py v ++ [] = text py w ++ [] := by rw [heq]
  exact (h [] [] nofun nofun heq).1

theorem told_str (hpy : Reprs py isPrintable) (s t : String) : Told py (.str s) (.str t) :=
  told hpy (.str s) (.str t) nofun nofun

theorem told_clear (hpy : Reprs py isPrintable) {m m' : Metadata} (hm : IsValue (.obj m))
    (hm' : IsValue (.obj m')) (hclear : Clear py m m') : Told py (.obj m) (.obj m') :=
  told hpy hm hm' hclear.1 hclear.2

/-- The chunk of an entity, as a parameter. -/
def chunkParam (chunkId : Option Uuid) : Json :=
  match chunkId with
  | some chunkId => .str chunkId.str
  | none => .null

theorem told_chunkParam (hpy : Reprs py isPrintable) (c d : Option Uuid) :
    Told py (chunkParam c) (chunkParam d) := by
  have hvalue : ∀ c, IsValue (chunkParam c) := by
    intro c
    cases c with
    | none => exact .null
    | some id => exact .str id.str
  have hhides : ∀ c w, ¬ Hides py (chunkParam c) w := by
    intro c w
    cases c with
    | none => exact nofun
    | some id => exact nofun
  exact told hpy (hvalue c) (hvalue d) (hhides c _) (hhides d _)

theorem chunkParam_inj {c d : Option Uuid} (h : sorted (chunkParam c) = sorted (chunkParam d)) :
    c = d := by
  cases c with
  | none =>
    cases d with
    | none => rfl
    | some id' => cases h
  | some id =>
    cases d with
    | none => cases h
    | some id' => rw [Uuid.str_injective (Json.str.inj h)]

theorem toList_entityPayload (entity : EntityUpsert) : (entityPayload py entity).toList =
      text py (.str entity.entityType) ++ '|' :: (text py (.str entity.name) ++ '|' ::
        (text py (.str entity.displayName) ++ '|' :: (text py (.str entity.sourceId.str) ++ '|' ::
          (text py (chunkParam entity.chunkId) ++ '|' :: text py (.obj entity.metadata))))) := by
  simp [entityPayload, joinWith, text, chunkParam]

theorem toList_edgePayload (edgeType sourceId : String) (metadata : Metadata) :
    (edgePayload py edgeType sourceId metadata).toList =
      text py (.str edgeType) ++ '|' :: (text py (.str sourceId) ++ '|' ::
        text py (.obj metadata)) := by
  simp [edgePayload, joinWith, text]

theorem entitiesTold (hpy : Reprs py isPrintable) {a b : EntityUpsert}
    (htold : Told py (.obj a.metadata) (.obj b.metadata)) : EntitiesTold py a b := by
  intro h
  have h := congrArg String.toList h
  rw [toList_entityPayload, toList_entityPayload] at h
  obtain ⟨htype, h⟩ := (told_str hpy _ _).bar h
  obtain ⟨hname, h⟩ := (told_str hpy _ _).bar h
  obtain ⟨hdisplay, h⟩ := (told_str hpy _ _).bar h
  obtain ⟨hsource, h⟩ := (told_str hpy _ _).bar h
  obtain ⟨hchunk, h⟩ := (told_chunkParam hpy _ _).bar h
  exact ⟨Json.str.inj htype, Json.str.inj hname, Json.str.inj hdisplay,
    Uuid.str_injective (Json.str.inj hsource), chunkParam_inj hchunk, htold.last h⟩

theorem edgesTold (hpy : Reprs py isPrintable) {m m' : Metadata}
    (htold : Told py (.obj m) (.obj m')) (edgeType edgeType' sourceId sourceId' : String) :
    EdgesTold py edgeType edgeType' sourceId sourceId' m m' := by
  intro h
  have h := congrArg String.toList h
  rw [toList_edgePayload, toList_edgePayload] at h
  obtain ⟨htype, h⟩ := (told_str hpy _ _).bar h
  obtain ⟨hsource, h⟩ := (told_str hpy _ _).bar h
  exact ⟨Json.str.inj htype, Json.str.inj hsource, htold.last h⟩

/-! ### Two states of one text -/

theorem text_obj_of_sorted (py : Py) {ms : List (String × Json)}
    (h : ms.Pairwise fun m m' => m.1 < m'.1) :
    text py (.obj ms) = '\x7b' :: (joined (ms.map (memberText py)) ++ ['\x7d']) := by
  have hkeys : (ms.map Prod.fst).Nodup := pairwise_map.2 (h.imp ne_of_lt)
  obtain ⟨l, hperm, hsorted, htext⟩ := exists_text_obj py hkeys
  rw [hperm.eq_of_pairwise (fun a b _ _ hab hba => absurd hba hab.asymm) hsorted h] at htext
  exact htext

/-- Two members in a row, read as one whose key holds the first. -/
def merged (py : Py) (m m' : String × Json) : String × Json :=
  (m.1 ++ ":" ++ stableRepr py m.2 ++ "," ++ m'.1, m'.2)

theorem memberText_merged (m m' : String × Json) :
    memberText py (merged py m m') = memberText py m ++ ',' :: memberText py m' := by
  simp [memberText, merged, text]

theorem lt_merged (m m' : String × Json) : m.1 < (merged py m m').1 := by
  rw [String.lt_iff_toList_lt, merged, String.toList_append, String.toList_append,
    String.toList_append, String.toList_append, append_assoc, append_assoc, append_assoc]
  conv => lhs; rw [← append_nil m.1.toList]
  exact append_left_lt (nil_lt_cons _ _)

theorem joined_append_pair (ts : List (List Char)) (s t : List Char) :
    joined (ts ++ [s, t]) = joined (ts ++ [s ++ ',' :: t]) := by
  cases ts with
  | nil => simp [joined]
  | cons u ts => simp [joined]

/-- **Every state with two members has the text of another one.** -/
theorem exists_twin (py : Py) {m : Metadata} (hm : IsValue (.obj m)) (hlen : 2 ≤ m.length) :
    ∃ m', IsValue (.obj m') ∧ stableRepr py (.obj m') = stableRepr py (.obj m) ∧
      sorted (.obj m') ≠ sorted (.obj m) := by
  cases hm with
  | obj hkeys hvalues =>
    obtain ⟨l, hperm, hsorted, htext⟩ := exists_text_obj py hkeys
    -- the two greatest keys become one
    obtain rfl | ⟨l, b, rfl⟩ := eq_nil_or_concat' l
    · rw [← hperm.length_eq] at hlen
      cases hlen
    obtain rfl | ⟨l, a, rfl⟩ := eq_nil_or_concat' l
    · rw [← hperm.length_eq] at hlen
      exact absurd hlen (Nat.not_succ_le_self 1)
    have hlt : (l ++ [merged py a b]).Pairwise fun m m' => m.1 < m'.1 := by
      obtain ⟨hrest, -, -⟩ := pairwise_append.1 hsorted
      obtain ⟨hl, -, hbefore⟩ := pairwise_append.1 hrest
      refine pairwise_append.2 ⟨hl, pairwise_singleton _ _, fun c hc d hd => ?_⟩
      rw [mem_singleton.1 hd]
      exact (hbefore c hc a mem_cons_self).trans (lt_merged a b)
    refine ⟨l ++ [merged py a b], .obj (pairwise_map.2 (hlt.imp ne_of_lt)) ?_, ?_, ?_⟩
    · intro c hc
      obtain hc | hc := mem_append.1 hc
      · exact hvalues c (hperm.mem_iff.1 (by simp [hc]))
      · rw [mem_singleton.1 hc]
        exact hvalues b (hperm.mem_iff.1 (by simp))
    · have hmerged : joined ((l ++ [merged py a b]).map (memberText py)) =
          joined ((l ++ [a] ++ [b]).map (memberText py)) := by
        rw [map_append, map_singleton, memberText_merged, ← joined_append_pair]
        simp
      refine String.toList_inj.1 ?_
      calc (stableRepr py (.obj (l ++ [merged py a b]))).toList
          = '\x7b' :: (joined ((l ++ [merged py a b]).map (memberText py)) ++ ['\x7d']) :=
            text_obj_of_sorted py hlt
        _ = '\x7b' :: (joined ((l ++ [a] ++ [b]).map (memberText py)) ++ ['\x7d']) := by
            rw [hmerged]
        _ = (stableRepr py (.obj m)).toList := htext.symm
    · intro heq
      have hlength := congrArg length (Json.obj.inj heq)
      rw [JsonText.length_sortedMembers, JsonText.length_sortedMembers, ← hperm.length_eq]
        at hlength
      simp at hlength

/-- **Fingerprints tell states apart** of which no key of one hides structure of the other.  A state
with two members has the payload of another one, whose key does. -/
theorem fingerprints_tell (hpy : Reprs py isPrintable) :
    (∀ a b : EntityUpsert, IsValue (.obj a.metadata) → IsValue (.obj b.metadata) →
      Clear py a.metadata b.metadata → EntitiesTold py a b) ∧
    (∀ m m' : Metadata, IsValue (.obj m) → IsValue (.obj m') → Clear py m m' →
      ∀ edgeType edgeType' sourceId sourceId',
        EdgesTold py edgeType edgeType' sourceId sourceId' m m') ∧
    ∀ m : Metadata, IsValue (.obj m) → 2 ≤ m.length →
      ∃ m', IsValue (.obj m') ∧ sorted (.obj m') ≠ sorted (.obj m) ∧
        (∀ a : EntityUpsert, a.metadata = m →
          entityPayload py { a with metadata := m' } = entityPayload py a) ∧
        ∀ edgeType sourceId,
          edgePayload py edgeType sourceId m' = edgePayload py edgeType sourceId m := by
  refine ⟨fun a b ha hb hclear => entitiesTold hpy (told_clear hpy ha hb hclear),
    fun m m' hm hm' hclear => edgesTold hpy (told_clear hpy hm hm' hclear), fun m hm hlen => ?_⟩
  obtain ⟨m', hm', htext, hne⟩ := exists_twin py hm hlen
  refine ⟨m', hm', hne, fun a ha => ?_, fun edgeType sourceId => ?_⟩
  · subst ha
    rw [entityPayload, entityPayload, htext]
  · rw [edgePayload, edgePayload, htext]

/-- A runtime that shows the scalars as Python does. -/
def shownPy : Py := { Py.sample with repr := PyRepr.repr fun _ => true }

theorem shownPy_reprs : Reprs shownPy fun _ => true := by
  refine ⟨fun s => rfl, fun v h => ?_⟩
  cases v with
  | str s => cases h
  | null => rfl
  | bool b => rfl
  | int n => rfl
  | float text => rfl
  | arr items => rfl
  | obj members => rfl

theorem isValue_single (k : String) (n : ℤ) : IsValue (.obj [(k, .int n)]) := by
  refine .obj (nodup_singleton _) fun m hm => ?_
  rw [mem_singleton.1 hm]
  exact .int n

theorem not_hides_version (n n' : ℤ) :
    ¬ Hides py (.obj [("version", .int n)]) (.obj [("version", .int n')]) := by
  intro h
  cases h with
  | swallow hm hm' h =>
    rw [mem_singleton.1 hm, mem_singleton.1 hm'] at h
    obtain ⟨t, ht, -⟩ := h
    have hlength := congrArg length ht
    simp at hlength
  | member hv hw h =>
    obtain ⟨rfl, rfl⟩ := Prod.mk.inj (mem_singleton.1 hv)
    cases h

theorem fingerprints_tell_version : edgePayload shownPy "CALLS" "s" [("version", .int 1)] ≠
      edgePayload shownPy "CALLS" "s" [("version", .int 2)] := by
  intro h
  obtain ⟨-, -, hsorted⟩ := (fingerprints_tell shownPy_reprs).2.1 _ _ (isValue_single _ 1)
    (isValue_single _ 2) ⟨not_hides_version 1 2, not_hides_version 2 1⟩ _ _ _ _ h
  cases hsorted

/-- A function of one chunk, with its metadata. -/
def sampleEntity (metadata : Metadata) : EntityUpsert where
  id := ⟨1, by decide⟩
  sourceId := ⟨2, by decide⟩
  entityType := "function"
  name := "main"
  displayName := "main"
  metadata := metadata

/-- Two members without a value have the text of one member whose key holds the first. -/
theorem twoKeys_read_as_one :
    (¬ ∀ a b : EntityUpsert, IsValue (.obj a.metadata) → IsValue (.obj b.metadata) →
      EntitiesTold shownPy a b) ∧
    ¬ ∀ m m' : Metadata, IsValue (.obj m) → IsValue (.obj m') →
      EdgesTold shownPy "CALLS" "CALLS" "s" "s" m m' := by
  have htwo : IsValue (.obj [("a", .null), ("b", .null)]) := by
    refine .obj (by decide) fun m hm => ?_
    obtain rfl | hm := mem_cons.1 hm
    · exact .null
    · rw [mem_singleton.1 hm]
      exact .null
  have hone : IsValue (.obj [("a:None,b", .null)]) := by
    refine .obj (by decide) fun m hm => ?_
    rw [mem_singleton.1 hm]
    exact .null
  have htext : stableRepr shownPy (.obj [("a", .null), ("b", .null)]) =
      stableRepr shownPy (.obj [("a:None,b", .null)]) := by
    have hlt : [("a", Json.null), ("b", .null)].Pairwise fun m m' => m.1 < m'.1 := by decide
    have hlt' : [("a:None,b", Json.null)].Pairwise fun m m' => m.1 < m'.1 := by decide
    have hab := text_obj_of_sorted shownPy hlt
    have hkey := text_obj_of_sorted shownPy hlt'
    exact String.toList_inj.1 (hab.trans hkey.symm)
  have hne : sorted (.obj [("a", .null), ("b", .null)]) ≠ sorted (.obj [("a:None,b", .null)]) := by
    intro hsorted
    have hlength := congrArg length (Json.obj.inj hsorted)
    rw [JsonText.length_sortedMembers, JsonText.length_sortedMembers] at hlength
    cases hlength
  refine ⟨fun h => ?_, fun h => ?_⟩
  · have hpayload : entityPayload shownPy (sampleEntity [("a", .null), ("b", .null)]) =
        entityPayload shownPy (sampleEntity [("a:None,b", .null)]) := by
      rw [entityPayload, entityPayload, sampleEntity, sampleEntity, htext]
    obtain ⟨-, -, -, -, -, hsorted⟩ := h _ _ htwo hone hpayload
    exact hne hsorted
  · have hpayload : edgePayload shownPy "CALLS" "s" [("a", .null), ("b", .null)] =
        edgePayload shownPy "CALLS" "s" [("a:None,b", .null)] := by
      rw [edgePayload, edgePayload, htext]
    obtain ⟨-, -, hsorted⟩ := h _ _ htwo hone hpayload
    exact hne hsorted

end Omniscience.Neo4j
