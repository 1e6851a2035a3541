import Mathlib.Data.List.Pairwise
import Mathlib.Data.List.Nodup
import SyntaxHighlight.Settings.Reader

/-!
# The last node of a name counts

What may follow a known name is told by its shape: values of a kind, or one value only. A node whose
values do not fit is wrong even if a later one of its name fits, and the first wrong node is the one
that is reported (`Settings.applyNodes_of_firstError`). If no node is wrong, each choice is what the
last node of its name says, or that of a user who chooses nothing; and each node that is unknown or
stands behind another of its name gives one warning (`Settings.exists_applyNodes_eq`).
-/

namespace SyntaxHighlight

namespace Settings

/-! ### What may follow a name -/

inductive Kind where
  | string
  | truth
  | natural

/-- The values of a kind. An integer has to fit into 64 bits without sign. -/
inductive Kind.Holds : Kind → Kdl.Value → Prop
  | string (text : String) : Holds string (.string text)
  | truth (b : Bool) : Holds truth (.bool b)
  | natural (n : Nat) (h : n < UInt64.size) : Holds natural (.integer n)

def Kind.problem : Kind → Kdl.Value → ValueProblem
  | .string, value => .notAString value
  | .truth, value => .notABool value
  | .natural, .integer n => .outOfRange n
  | .natural, value => .notAnInteger value

/-- What may follow a known name: values of a kind, or one value only. -/
structure Shape where
  kind : Kind
  single : Bool

def shape? : String → Option Shape
  | "languages" => some ⟨.string, false⟩
  | "terms" => some ⟨.string, false⟩
  | "highlight-comments" => some ⟨.truth, true⟩
  | "debounce-ms" => some ⟨.natural, true⟩
  | "runtime" => some ⟨.string, true⟩
  | _ => none

def plain (value : Kdl.Value) : Kdl.Entry := ⟨none, value⟩

/-- What is wrong with entries that do not fit: the first property, or else the number of values, or
else the first value that is not of the kind. -/
inductive Shape.WrongBy (shape : Shape) : List Kdl.Entry → ValueProblem → Prop
  | property (values : List Kdl.Value) (name : String) (value : Kdl.Value)
      (rest : List Kdl.Entry) :
      WrongBy shape (values.map plain ++ ⟨some name, value⟩ :: rest) (.unexpectedProperty name)
  | count (values : List Kdl.Value) (hsingle : shape.single = true) (h : values.length ≠ 1) :
      WrongBy shape (values.map plain) (.wrongCount values.length)
  | value (front : List Kdl.Value) (value : Kdl.Value) (back : List Kdl.Value)
      (hsingle : shape.single = true → front = [] ∧ back = [])
      (hfront : ∀ v ∈ front, shape.kind.Holds v) (h : ¬ shape.kind.Holds value) :
      WrongBy shape ((front ++ value :: back).map plain) (shape.kind.problem value)

def Shape.Fits (shape : Shape) (values : List Kdl.Value) : Prop :=
  (shape.single = true → values.length = 1) ∧ ∀ v ∈ values, shape.kind.Holds v

/-- Entries are arguments only, or there is a first property. -/
theorem plain_or_property (entries : List Kdl.Entry) :
    (∃ values : List Kdl.Value, entries = values.map plain) ∨
      ∃ (values : List Kdl.Value) (name : String) (value : Kdl.Value) (rest : List Kdl.Entry),
        entries = values.map plain ++ ⟨some name, value⟩ :: rest := by
  induction entries with
  | nil => exact .inl ⟨[], rfl⟩
  | cons entry entries ih =>
    obtain ⟨_ | name, value⟩ := entry
    · rcases ih with ⟨values, rfl⟩ | ⟨values, name, value', rest, rfl⟩
      · exact .inl ⟨value :: values, rfl⟩
      · exact .inr ⟨value :: values, name, value', rest, rfl⟩
    · exact .inr ⟨[], name, value, entries, rfl⟩

/-- All values are of a kind, or there is a first one that is not. -/
theorem holds_or_first (kind : Kind) (values : List Kdl.Value) :
    (∀ v ∈ values, kind.Holds v) ∨
      ∃ front value back, values = front ++ value :: back ∧ (∀ v ∈ front, kind.Holds v) ∧
        ¬ kind.Holds value := by
  induction values with
  | nil => exact .inl nofun
  | cons value values ih =>
    by_cases hvalue : kind.Holds value
    · rcases ih with hall | ⟨front, value', back, rfl, hfront, hfirst⟩
      · exact .inl (List.forall_mem_cons.2 ⟨hvalue, hall⟩)
      · exact .inr ⟨value :: front, value', back, rfl, List.forall_mem_cons.2 ⟨hvalue, hfront⟩,
          hfirst⟩
    · exact .inr ⟨[], value, values, rfl, nofun, hvalue⟩

/-- Entries are values that fit, or something is wrong with them. -/
theorem Shape.fits_or_wrongBy (shape : Shape) (entries : List Kdl.Entry) :
    (∃ values, entries = values.map plain ∧ shape.Fits values) ∨ ∃ p, shape.WrongBy entries p := by
  rcases plain_or_property entries with ⟨values, rfl⟩ | ⟨values, name, value, rest, rfl⟩
  · by_cases hcount : shape.single = true → values.length = 1
    · rcases holds_or_first shape.kind values with hall | ⟨front, value, back, rfl, hfront, hfirst⟩
      · exact .inl ⟨values, rfl, hcount, hall⟩
      · refine .inr ⟨_, .value front value back (fun hsingle => ?_) hfront hfirst⟩
        have hlength := hcount hsingle
        rw [List.length_append, List.length_cons] at hlength
        exact ⟨List.eq_nil_of_length_eq_zero (by omega), List.eq_nil_of_length_eq_zero (by omega)⟩
    · have hmany := Classical.not_imp.1 hcount
      exact .inr ⟨_, .count values hmany.1 hmany.2⟩
  · exact .inr ⟨_, .property values name value rest⟩

end Settings

namespace Kdl.Node

open Settings

/-- A node with a known name and a property, a wrong number of values or a value of a wrong kind. -/
def IsWrong (node : Node) : Prop :=
  ∃ shape, shape? node.name = some shape ∧
    ((∃ entry ∈ node.entries, entry.name ≠ none) ∨
      shape.single = true ∧ node.entries.length ≠ 1 ∨
      ∃ entry ∈ node.entries, ¬ shape.kind.Holds entry.value)

def WrongBy (node : Node) (problem : ValueProblem) : Prop :=
  ∃ shape, shape? node.name = some shape ∧ shape.WrongBy node.entries problem

theorem isWrong_iff {node : Node} : node.IsWrong ↔ ∃ p, node.WrongBy p := by
  constructor
  · rintro ⟨shape, hshape, hwrong⟩
    -- If the entries fit, nothing can be wrong with them.
    rcases shape.fits_or_wrongBy node.entries with ⟨values, hentries, hcount, hholds⟩ | ⟨p, hp⟩
    · rw [hentries, List.length_map] at hwrong
      rcases hwrong with ⟨entry, hmem, hname⟩ | ⟨hsingle, hlength⟩ | ⟨entry, hmem, hvalue⟩
      · obtain ⟨v, -, rfl⟩ := List.mem_map.1 hmem
        exact absurd rfl hname
      · exact absurd (hcount hsingle) hlength
      · obtain ⟨v, hv, rfl⟩ := List.mem_map.1 hmem
        exact absurd (hholds v hv) hvalue
    · exact ⟨p, shape, hshape, hp⟩
  · rintro ⟨p, shape, hshape, hp⟩
    refine ⟨shape, hshape, ?_⟩
    generalize node.entries = entries at hp
    cases hp with
    | property values name value rest => exact .inl ⟨⟨some name, value⟩, by simp, nofun⟩
    | count values hsingle h => exact .inr (.inl ⟨hsingle, by rwa [List.length_map]⟩)
    | value front value back hsingle hfront h => exact .inr (.inr ⟨plain value, by simp, h⟩)

end Kdl.Node

namespace Settings

/-! ### Reading the values of a node -/

@[simp] theorem arguments_map_plain (values : List Kdl.Value) :
    arguments (values.map plain) = .ok values := by
  induction values with
  | nil => rfl
  | cons value values ih =>
    rw [arguments, List.map_cons, List.mapM_cons, ← arguments, ih]
    rfl

@[simp] theorem arguments_property (values : List Kdl.Value) (name : String) (value : Kdl.Value)
    (rest : List Kdl.Entry) :
    arguments (values.map plain ++ ⟨some name, value⟩ :: rest) =
      .error (.unexpectedProperty name) := by
  induction values with
  | nil =>
    rw [arguments, List.map_nil, List.nil_append, List.mapM_cons]
    rfl
  | cons v values ih =>
    rw [arguments, List.map_cons, List.cons_append, List.mapM_cons, ← arguments, ih]
    rfl

/-- A function fails at the values that are not of a kind, and says why. -/
def Kind.ReadBy {α : Type} (kind : Kind) (read : Kdl.Value → Except ValueProblem α) : Prop :=
  ∀ value, ¬ kind.Holds value → read value = .error (kind.problem value)

theorem Kind.readBy_asString : string.ReadBy asString := by
  intro value h
  cases value with
  | string text => exact absurd (.string text) h
  | _ => rfl

theorem Kind.readBy_asBool : truth.ReadBy asBool := by
  intro value h
  cases value with
  | bool b => exact absurd (.truth b) h
  | _ => rfl

theorem asNatural_integer {n : Nat} (h : n < UInt64.size) : asNatural (.integer n) = .ok n := by
  simp [asNatural, h]

theorem Kind.readBy_asNatural : natural.ReadBy asNatural := by
  intro value h
  cases value with
  | integer n =>
    refine if_neg fun hrange => ?_
    simp only [Bool.and_eq_true, decide_eq_true_eq] at hrange
    obtain ⟨k, rfl⟩ := Int.eq_ofNat_of_zero_le hrange.1
    exact h (.natural k hrange.2)
  | _ => rfl

theorem mapM_asString_texts (texts : List String) :
    (texts.map Kdl.Value.string).mapM asString = .ok texts := by
  induction texts with
  | nil => rfl
  | cons text texts ih =>
    rw [List.map_cons, List.mapM_cons, ih]
    rfl

theorem mapM_asString_first {front : List Kdl.Value} {value : Kdl.Value} (back : List Kdl.Value)
    (hfront : ∀ v ∈ front, Kind.string.Holds v) (h : ¬ Kind.string.Holds value) :
    (front ++ value :: back).mapM asString = .error (.notAString value) := by
  induction front with
  | nil =>
    rw [List.nil_append, List.mapM_cons, Kind.readBy_asString value h]
    rfl
  | cons v front ih =>
    obtain ⟨hv, hrest⟩ := List.forall_mem_cons.1 hfront
    cases hv with
    | string text =>
      rw [List.cons_append, List.mapM_cons, ih hrest]
      rfl

/-- Reading texts reports what is wrong with the entries. -/
theorem strings_of_wrongBy {entries : List Kdl.Entry} {p : ValueProblem}
    (h : (⟨.string, false⟩ : Shape).WrongBy entries p) : strings entries = .error p := by
  cases h with
  | property values name value rest =>
    rw [strings, arguments_property]
    rfl
  | count values hsingle => cases hsingle
  | value front value back hsingle hfront h =>
    rw [strings, arguments_map_plain]
    show ((front ++ value :: back).mapM asString >>= _) = _
    rw [mapM_asString_first back hfront h]
    rfl

theorem strings_texts (texts : List String) :
    strings ((texts.map .string).map plain) = .ok texts.eraseDups := by
  rw [strings, arguments_map_plain]
  show ((texts.map Kdl.Value.string).mapM asString >>= _) = _
  rw [mapM_asString_texts]
  rfl

/-- Reading one value reports what is wrong with the entries. -/
theorem argument_of_wrongBy {α : Type} {kind : Kind} {read : Kdl.Value → Except ValueProblem α}
    (hread : kind.ReadBy read) {entries : List Kdl.Entry} {p : ValueProblem}
    (h : (⟨kind, true⟩ : Shape).WrongBy entries p) : (argument entries >>= read) = .error p := by
  cases h with
  | property values name value rest =>
    rw [argument, arguments_property]
    rfl
  | count values hsingle h =>
    rw [argument, arguments_map_plain]
    match values with
    | [] => rfl
    | [v] => exact absurd rfl h
    | _ :: _ :: _ => rfl
  | value front value back hsingle hfront h =>
    obtain ⟨rfl, rfl⟩ := hsingle rfl
    rw [argument, arguments_map_plain]
    exact hread value h

/-! ### What a node sets -/

inductive Sets (node : Kdl.Node) : (Settings → Settings) → Prop
  | languages (texts : List String) (hname : node.name = "languages")
      (hentries : node.entries = (texts.map .string).map plain) :
      Sets node fun s => { s with languages := texts.eraseDups }
  | terms (texts : List String) (hname : node.name = "terms")
      (hentries : node.entries = (texts.map .string).map plain) :
      Sets node fun s => { s with terms := texts.eraseDups }
  | highlightComments (b : Bool) (hname : node.name = "highlight-comments")
      (hentries : node.entries = [.bool b].map plain) :
      Sets node fun s => { s with highlightComments := b }
  | debounce (n : Nat) (h : n < UInt64.size) (hname : node.name = "debounce-ms")
      (hentries : node.entries = [.integer n].map plain) :
      Sets node fun s => { s with debounce := n }
  | runtime (text : String) (hname : node.name = "runtime")
      (hentries : node.entries = [.string text].map plain) :
      Sets node fun s => { s with runtime := text }

/-- A node with values that fit is read as what it sets. -/
theorem setting?_of_sets {node : Kdl.Node} {set : Settings → Settings} (h : Sets node set) :
    setting? node.name node.entries = some (.ok set) := by
  -- Each field has a reader of its own, which succeeds on values that fit.
  cases h with
  | languages texts hname hentries =>
    rw [hname, hentries, setting?, strings_texts]
    rfl
  | terms texts hname hentries =>
    rw [hname, hentries, setting?, strings_texts]
    rfl
  | highlightComments b hname hentries =>
    rw [hname, hentries]
    rfl
  | debounce n h hname hentries =>
    rw [hname, hentries, setting?, argument, arguments_map_plain]
    show some (asNatural (.integer n) >>= _) = _
    rw [asNatural_integer h]
    rfl
  | runtime text hname hentries =>
    rw [hname, hentries]
    rfl

theorem setting?_eq_none_iff {name : String} {entries : List Kdl.Entry} :
    setting? name entries = none ↔ shape? name = none := by
  unfold setting? shape?
  split <;> simp

/-- A node that is wrong is read as what is wrong with it. -/
theorem setting?_of_wrongBy {node : Kdl.Node} {p : ValueProblem} (h : node.WrongBy p) :
    setting? node.name node.entries = some (.error p) := by
  obtain ⟨shape, hshape, hwrong⟩ := h
  have hmany (f : List String → Settings → Settings) (hkind : shape = ⟨.string, false⟩) :
      (strings node.entries >>= fun l => pure (f l)) = .error p := by
    rw [strings_of_wrongBy (hkind ▸ hwrong)]
    rfl
  have hsingle {α : Type} {kind : Kind} {read : Kdl.Value → Except ValueProblem α}
      (hread : kind.ReadBy read) (f : α → Settings → Settings) (hkind : shape = ⟨kind, true⟩) :
      (argument node.entries >>= fun v => read v >>= fun a => pure (f a)) = .error p := by
    rw [← bind_assoc, argument_of_wrongBy hread (hkind ▸ hwrong)]
    rfl
  generalize node.name = name at hshape
  unfold shape? at hshape
  split at hshape
  case h_1 => exact congrArg some (hmany _ (Option.some.inj hshape).symm)
  case h_2 => exact congrArg some (hmany _ (Option.some.inj hshape).symm)
  case h_3 => exact congrArg some (hsingle Kind.readBy_asBool _ (Option.some.inj hshape).symm)
  case h_4 => exact congrArg some (hsingle Kind.readBy_asNatural _ (Option.some.inj hshape).symm)
  case h_5 => exact congrArg some (hsingle Kind.readBy_asString _ (Option.some.inj hshape).symm)
  case h_6 => cases hshape

theorem texts_of_holds {values : List Kdl.Value} (h : ∀ v ∈ values, Kind.string.Holds v) :
    ∃ texts : List String, values = texts.map .string := by
  induction values with
  | nil => exact ⟨[], rfl⟩
  | cons v values ih =>
    obtain ⟨hv, hrest⟩ := List.forall_mem_cons.1 h
    obtain ⟨texts, rfl⟩ := ih hrest
    cases hv with
    | string text => exact ⟨text :: texts, rfl⟩

/-- A node with a known name sets something if it is not wrong. -/
theorem exists_sets {node : Kdl.Node} (hknown : shape? node.name ≠ none) (h : ¬ node.IsWrong) :
    ∃ set, Sets node set := by
  obtain ⟨shape, hshape⟩ := Option.ne_none_iff_exists'.1 hknown
  rcases shape.fits_or_wrongBy node.entries with ⟨values, hentries, hcount, hholds⟩ | ⟨p, hp⟩
  case inr => exact absurd (Kdl.Node.isWrong_iff.2 ⟨p, shape, hshape, hp⟩) h
  -- the shape of a name holds for its values, one of them where it wants a single one
  have hsingle (hone : shape.single = true) :
      ∃ v, node.entries = [v].map plain ∧ shape.kind.Holds v := by
    obtain ⟨v, rfl⟩ := List.length_eq_one_iff.1 (hcount hone)
    exact ⟨v, hentries, hholds v List.mem_cons_self⟩
  generalize hname : node.name = name at hshape
  unfold shape? at hshape
  split at hshape <;> cases hshape
  case h_1 =>
    obtain ⟨texts, rfl⟩ := texts_of_holds hholds
    exact ⟨_, .languages texts hname hentries⟩
  case h_2 =>
    obtain ⟨texts, rfl⟩ := texts_of_holds hholds
    exact ⟨_, .terms texts hname hentries⟩
  case h_3 =>
    obtain ⟨_, hentries, ⟨⟩⟩ := hsingle rfl
    exact ⟨_, .highlightComments _ hname hentries⟩
  case h_4 =>
    obtain ⟨_, hentries, ⟨⟩⟩ := hsingle rfl
    exact ⟨_, .debounce _ ‹_› hname hentries⟩
  case h_5 =>
    obtain ⟨_, hentries, ⟨⟩⟩ := hsingle rfl
    exact ⟨_, .runtime _ hname hentries⟩

/-! ### One node after another -/

variable {s : Settings} {seen : List String} {node : Kdl.Node} {rest : List Kdl.Node}

theorem applyNodes_of_unknown (h : shape? node.name = none) :
    s.applyNodes seen (node :: rest) =
      (s.warn (.unknownNode node.name)).applyNodes seen rest := by
  rw [applyNodes, setting?_eq_none_iff.2 h]

theorem applyNodes_of_wrongBy {p : ValueProblem} (h : node.WrongBy p) :
    s.applyNodes seen (node :: rest) = .error (.invalidValue node.name p) := by
  rw [applyNodes, setting?_of_wrongBy h]

theorem applyNodes_of_sets {set : Settings → Settings} (h : Sets node set) :
    s.applyNodes seen (node :: rest) =
      (if seen.contains node.name then (set s).warn (.duplicate node.name) else set s).applyNodes
        (node.name :: seen) rest := by
  rw [applyNodes, setting?_of_sets h]

/-- The error that reports the first wrong node. -/
def FirstError (nodes : List Kdl.Node) (e : SettingsError) : Prop :=
  ∃ before node after p, nodes = before ++ node :: after ∧ (∀ n ∈ before, ¬ n.IsWrong) ∧
    node.WrongBy p ∧ e = .invalidValue node.name p

/-- Applying nodes stops at the first wrong one. -/
theorem applyNodes_of_firstError {nodes : List Kdl.Node} {e : SettingsError}
    (h : FirstError nodes e) : s.applyNodes seen nodes = .error e := by
  obtain ⟨before, node, after, p, rfl, hbefore, hwrong, rfl⟩ := h
  induction before generalizing s seen with
  | nil => exact applyNodes_of_wrongBy hwrong
  | cons n before ih =>
    obtain ⟨hn, hrest⟩ := List.forall_mem_cons.1 hbefore
    rw [List.cons_append]
    by_cases hknown : shape? n.name = none
    · rw [applyNodes_of_unknown hknown]
      exact ih hrest
    · obtain ⟨set, hset⟩ := exists_sets hknown hn
      rw [applyNodes_of_sets hset]
      exact ih hrest

/-- If some node is wrong, there is a first one. -/
theorem exists_firstError {nodes : List Kdl.Node} (h : ∃ n ∈ nodes, n.IsWrong) :
    ∃ e, FirstError nodes e := by
  induction nodes with
  | nil =>
    obtain ⟨n, hn, -⟩ := h
    cases hn
  | cons n nodes ih =>
    by_cases hn : n.IsWrong
    · obtain ⟨p, hp⟩ := Kdl.Node.isWrong_iff.1 hn
      exact ⟨_, [], n, nodes, p, rfl, nofun, hp, rfl⟩
    · obtain ⟨n', hmem, hwrong⟩ := h
      rcases List.mem_cons.1 hmem with rfl | hmem
      · exact absurd hwrong hn
      · obtain ⟨e, before, node, after, p, rfl, hbefore, hp, rfl⟩ := ih ⟨n', hmem, hwrong⟩
        exact ⟨_, n :: before, node, after, p, rfl, List.forall_mem_cons.2 ⟨hn, hbefore⟩, hp, rfl⟩

/-! ### What the nodes choose -/

def last? (nodes : List Kdl.Node) (name : String) : Option Kdl.Node :=
  (nodes.filter (·.name == name)).getLast?

theorem last?_concat (nodes : List Kdl.Node) (node : Kdl.Node) (name : String) :
    last? (nodes ++ [node]) name = if node.name = name then some node else last? nodes name := by
  rw [last?, List.filter_append, List.filter_singleton]
  by_cases h : node.name = name
  · rw [if_pos h, beq_iff_eq.2 h, cond_true, List.getLast?_concat]
  · rw [if_neg h, beq_eq_false_iff_ne.2 h, cond_false, List.append_nil, last?]

/-- A field is what the last node of a name says, or a default if there is no such node. -/
def LastGives {α : Type} (nodes : List Kdl.Node) (name : String)
    (gives : List Kdl.Value → α → Prop) (fallback field : α) : Prop :=
  match last? nodes name with
  | some node => ∃ values : List Kdl.Value, node.entries = values.map plain ∧ gives values field
  | none => field = fallback

namespace LastGives

variable {α : Type} {nodes : List Kdl.Node} {name : String} {gives : List Kdl.Value → α → Prop}
  {fallback field field' : α}

theorem concat_same {values : List Kdl.Value} (hname : node.name = name)
    (hentries : node.entries = values.map plain) (hgives : gives values field) :
    LastGives (nodes ++ [node]) name gives fallback field := by
  rw [LastGives, last?_concat, if_pos hname]
  exact ⟨values, hentries, hgives⟩

theorem concat_other (h : LastGives nodes name gives fallback field) (hname : node.name ≠ name) :
    LastGives (nodes ++ [node]) name gives fallback field := by
  rw [LastGives, last?_concat, if_neg hname]
  exact h

/-- No two values are chosen for one field. -/
theorem unique (hgives : ∀ values a b, gives values a → gives values b → a = b)
    (h : LastGives nodes name gives fallback field)
    (h' : LastGives nodes name gives fallback field') : field = field' := by
  unfold LastGives at h h'
  cases hlast : last? nodes name with
  | none =>
    rw [hlast] at h h'
    exact h.trans h'.symm
  | some node =>
    rw [hlast] at h h'
    obtain ⟨values, hentries, hfield⟩ := h
    obtain ⟨values', hentries', hfield'⟩ := h'
    have hplain : Function.Injective (List.map plain) :=
      List.map_injective_iff.2 fun _ _ heq => (Kdl.Entry.mk.inj heq).2
    obtain rfl := hplain (hentries.symm.trans hentries')
    exact hgives values _ _ hfield hfield'

end LastGives

/-- Values that are texts, and these texts, each where it occurs first. -/
def Lists (values : List Kdl.Value) (kept : List String) : Prop :=
  ∃ texts : List String, values = texts.map .string ∧ (∀ t, t ∈ kept ↔ t ∈ texts) ∧
    kept.Pairwise fun a b => texts.idxOf a < texts.idxOf b

theorem lists_eraseDups (texts : List String) :
    Lists (texts.map .string) texts.eraseDups :=
  ⟨texts, rfl, fun _ => List.mem_eraseDups, pairwise_idxOf_eraseDups texts⟩

/-- A list of texts is told by its members and their order. -/
theorem Lists.unique {values : List Kdl.Value} {kept kept' : List String} (h : Lists values kept)
    (h' : Lists values kept') : kept = kept' := by
  obtain ⟨texts, rfl, hmem, hsorted⟩ := h
  obtain ⟨texts', htexts, hmem', hsorted'⟩ := h'
  have hstring : Function.Injective (List.map Kdl.Value.string) :=
    List.map_injective_iff.2 fun _ _ heq => Kdl.Value.string.inj heq
  obtain rfl := hstring htexts
  have hnodup {l : List String} (hl : l.Pairwise fun a b => texts.idxOf a < texts.idxOf b) :
      l.Nodup := by
    refine List.nodup_iff_pairwise_ne.2 (hl.imp fun hlt heq => ?_)
    rw [heq] at hlt
    exact Nat.lt_irrefl _ hlt
  -- The members are the same, and both lists have them in the order of the texts.
  have hperm : kept.Perm kept' :=
    (List.perm_ext_iff_of_nodup (hnodup hsorted) (hnodup hsorted')).2 fun t =>
      (hmem t).trans (hmem' t).symm
  exact hperm.eq_of_pairwise (fun a b _ _ hab hba => absurd hab (Nat.lt_asymm hba)) hsorted hsorted'

/-- Settings in which each choice is what the last node of its name says. -/
structure Chooses (runtime : String) (nodes : List Kdl.Node) (s : Settings) : Prop where
  languages : LastGives nodes "languages" Lists (default runtime).languages s.languages
  terms : LastGives nodes "terms" Lists (default runtime).terms s.terms
  highlightComments : LastGives nodes "highlight-comments" (fun values b => values = [.bool b])
    (default runtime).highlightComments s.highlightComments
  debounce : LastGives nodes "debounce-ms" (fun values (n : Nat) => values = [.integer n])
    (default runtime).debounce s.debounce
  runtime : LastGives nodes "runtime" (fun values text => values = [.string text]) runtime s.runtime

inductive Choice where
  | languages
  | terms
  | highlightComments
  | debounce
  | runtime

namespace Choice

def Carrier : Choice → Type
  | languages | terms => List String
  | highlightComments => Bool
  | debounce => Nat
  | runtime => String

/-- The name of the nodes that set a field. -/
def name : Choice → String
  | languages => "languages"
  | terms => "terms"
  | highlightComments => "highlight-comments"
  | debounce => "debounce-ms"
  | runtime => "runtime"

/-- What the values of a node make of a field. -/
def Gives : (c : Choice) → List Kdl.Value → c.Carrier → Prop
  | languages | terms => Lists
  | highlightComments => fun values b => values = [.bool b]
  | debounce => fun values (n : Nat) => values = [.integer n]
  | runtime => fun values text => values = [.string text]

def get (s : Settings) : (c : Choice) → c.Carrier
  | languages => s.languages
  | terms => s.terms
  | highlightComments => s.highlightComments
  | debounce => s.debounce
  | runtime => s.runtime

def put (s : Settings) : (c : Choice) → c.Carrier → Settings
  | languages, l => { s with languages := l }
  | terms, l => { s with terms := l }
  | highlightComments, b => { s with highlightComments := b }
  | debounce, n => { s with debounce := n }
  | runtime, text => { s with runtime := text }

variable {c d : Choice}

/-- No two fields are set by nodes of one name. -/
theorem eq_of_name_eq (h : c.name = d.name) : c = d := by
  cases c <;> cases d <;> first | rfl | exact absurd h (by decide)

theorem shape?_name_ne_none (c : Choice) : shape? c.name ≠ none := by
  cases c <;> nofun

@[simp] theorem get_put (s : Settings) (c : Choice) (v : c.Carrier) : get (put s c v) c = v := by
  cases c <;> rfl

/-- Setting a field leaves the others. -/
theorem get_put_of_ne (s : Settings) (h : d ≠ c) (v : c.Carrier) :
    get (put s c v) d = get s d := by
  cases c <;> cases d <;> first | rfl | exact absurd rfl h

@[simp] theorem get_warn (s : Settings) (warning : SettingsWarning) (c : Choice) :
    get (s.warn warning) c = get s c := by
  cases c <;> rfl

/-- Values do not make two things of one field. -/
theorem gives_unique {values : List Kdl.Value} {v w : c.Carrier} (hv : c.Gives values v)
    (hw : c.Gives values w) : v = w := by
  cases c with
  | languages | terms => exact Lists.unique hv hw
  | highlightComments | runtime =>
    obtain rfl : values = _ := hv
    cases hw
    rfl
  | debounce =>
    obtain rfl : values = _ := hv
    exact Int.ofNat.inj (Kdl.Value.integer.inj (List.cons.inj hw).1)

/-- Settings are told from their fields and their warnings. -/
theorem ext_get {s s' : Settings} (h : ∀ c, get s c = get s' c)
    (hwarnings : s.warnings = s'.warnings) : s = s' := by
  have hlanguages : s.languages = s'.languages := h languages
  have hterms : s.terms = s'.terms := h terms
  have hcomments : s.highlightComments = s'.highlightComments := h highlightComments
  have hdebounce : s.debounce = s'.debounce := h debounce
  have hruntime : s.runtime = s'.runtime := h runtime
  cases s
  cases s'
  simp_all

end Choice

/-- A node that sets something sets one field, and its values say to what. -/
theorem Sets.exists_put {set : Settings → Settings} (h : Sets node set) :
    ∃ (c : Choice) (v : c.Carrier) (values : List Kdl.Value), set = (Choice.put · c v) ∧
      node.name = c.name ∧ node.entries = values.map plain ∧ c.Gives values v := by
  cases h with
  | languages texts hname hentries =>
    exact ⟨.languages, _, _, rfl, hname, hentries, lists_eraseDups texts⟩
  | terms texts hname hentries =>
    exact ⟨.terms, _, _, rfl, hname, hentries, lists_eraseDups texts⟩
  | highlightComments b hname hentries =>
    exact ⟨.highlightComments, b, _, rfl, hname, hentries, rfl⟩
  | debounce n _ hname hentries => exact ⟨.debounce, n, _, rfl, hname, hentries, rfl⟩
  | runtime text hname hentries => exact ⟨.runtime, text, _, rfl, hname, hentries, rfl⟩

/-- What is chosen, said for all fields at once. -/
theorem chooses_iff {runtime : String} {nodes : List Kdl.Node} {s : Settings} :
    Chooses runtime nodes s ↔
      ∀ c : Choice, LastGives nodes c.name c.Gives (Choice.get (default runtime) c) (Choice.get s c)
    where
  mp h
    | .languages => h.languages
    | .terms => h.terms
    | .highlightComments => h.highlightComments
    | .debounce => h.debounce
    | .runtime => h.runtime
  mpr h := ⟨h .languages, h .terms, h .highlightComments, h .debounce, h .runtime⟩

/-- What is said about a node that stands behind others. -/
def warning? (before : List Kdl.Node) (node : Kdl.Node) : Option SettingsWarning :=
  if shape? node.name = none then some (.unknownNode node.name)
  else if ∃ n ∈ before, n.name = node.name then some (.duplicate node.name)
  else none

/-- What is said about nodes, in their order. -/
def warningsOf (nodes : List Kdl.Node) : List SettingsWarning :=
  nodes.zipIdx.filterMap fun (node, i) => warning? (nodes.take i) node

/-- The warning about a node depends on the nodes in front of it. -/
theorem warningsOf_concat (nodes : List Kdl.Node) (node : Kdl.Node) :
    warningsOf (nodes ++ [node]) = warningsOf nodes ++ (warning? nodes node).toList := by
  have hfront : nodes.zipIdx.filterMap (fun (n, i) => warning? ((nodes ++ [node]).take i) n) =
      warningsOf nodes := by
    refine List.filterMap_congr fun ⟨n, i⟩ hmem => ?_
    have hlt := List.snd_lt_of_mem_zipIdx hmem
    rw [Nat.add_zero] at hlt
    dsimp only
    rw [List.take_append_of_le_length (Nat.le_of_lt hlt)]
  rw [warningsOf, List.zipIdx_append, List.filterMap_append, hfront]
  simp only [List.zipIdx_singleton, List.filterMap_cons, List.filterMap_nil, Nat.zero_add,
    List.take_left]
  cases warning? nodes node <;> rfl

/-- Settings that hold what some nodes choose, and a warning for each node that is passed over. -/
structure Holds (runtime : String) (nodes : List Kdl.Node) (s : Settings) : Prop
    extends Chooses runtime nodes s where
  warnings : s.warnings = warningsOf nodes

/-- The nodes leave no choice of settings. -/
theorem Holds.unique {runtime : String} {nodes : List Kdl.Node} {s s' : Settings}
    (h : Holds runtime nodes s) (h' : Holds runtime nodes s') : s = s' := by
  refine Choice.ext_get (fun c => ?_) (h.warnings.trans h'.warnings.symm)
  refine LastGives.unique ?_ (chooses_iff.1 h.toChooses c) (chooses_iff.1 h'.toChooses c)
  exact fun _ _ _ hv hw => Choice.gives_unique hv hw

variable {runtime : String} {before : List Kdl.Node}

theorem chooses_default (runtime : String) : Chooses runtime [] (default runtime) :=
  chooses_iff.2 fun _ => rfl

theorem Chooses.warn (h : Chooses runtime before s) (warning : SettingsWarning) :
    Chooses runtime before (s.warn warning) := by
  rw [chooses_iff] at h ⊢
  simpa using h

/-- Behind a node of another name than the known ones, all choices are as before. -/
theorem Chooses.concat_unknown (h : Chooses runtime before s) (hunknown : shape? node.name = none) :
    Chooses runtime (before ++ [node]) s := by
  rw [chooses_iff] at h ⊢
  intro c
  exact (h c).concat_other fun hname => c.shape?_name_ne_none (hname ▸ hunknown)

/-- Behind a node with a known name, the choice of this name is that of the node. -/
theorem Chooses.concat_sets {set : Settings → Settings} (h : Chooses runtime before s)
    (hset : Sets node set) : Chooses runtime (before ++ [node]) (set s) := by
  obtain ⟨c, v, values, rfl, hname, hentries, hgives⟩ := hset.exists_put
  rw [chooses_iff] at h ⊢
  intro d
  by_cases hd : d = c
  · subst hd
    rw [Choice.get_put]
    exact .concat_same hname hentries hgives
  · rw [Choice.get_put_of_ne s hd]
    exact (h d).concat_other fun heq => hd (Choice.eq_of_name_eq (heq.symm.trans hname))

theorem Sets.warnings_eq {set : Settings → Settings} (h : Sets node set) (s : Settings) :
    (set s).warnings = s.warnings := by
  cases h <;> rfl

/-- If no node is wrong there are settings, and they hold what the nodes choose. -/
theorem exists_applyNodes_eq {nodes : List Kdl.Node} (h : Holds runtime before s)
    (hseen : ∀ name, shape? name ≠ none → (name ∈ seen ↔ ∃ n ∈ before, n.name = name))
    (hright : ∀ n ∈ nodes, ¬ n.IsWrong) :
    ∃ s', s.applyNodes seen nodes = .ok s' ∧ Holds runtime (before ++ nodes) s' := by
  -- On the nodes to come; what is passed is added to those before.
  induction nodes generalizing s seen before with
  | nil => exact ⟨s, rfl, by rwa [List.append_nil]⟩
  | cons node nodes ih =>
    obtain ⟨hnode, hrest⟩ := List.forall_mem_cons.1 hright
    rw [List.append_cons]
    by_cases hknown : shape? node.name = none
    · rw [applyNodes_of_unknown hknown]
      refine ih ⟨(h.toChooses.concat_unknown hknown).warn _, ?_⟩ ?_ hrest
      · rw [warningsOf_concat, warning?, if_pos hknown, warn, h.warnings]
        rfl
      · intro name hname
        rw [hseen name hname]
        have hne : node.name ≠ name := fun heq => hname (heq ▸ hknown)
        simp [hne]
    · obtain ⟨set, hset⟩ := exists_sets hknown hnode
      rw [applyNodes_of_sets hset]
      have hchosen := h.toChooses.concat_sets hset
      refine ih ⟨?_, ?_⟩ ?_ hrest
      · split
        · exact hchosen.warn _
        · exact hchosen
      · rw [warningsOf_concat, warning?, if_neg hknown]
        simp only [List.contains_iff_mem, hseen node.name hknown]
        split
        · rw [warn, hset.warnings_eq, h.warnings]
          rfl
        · rw [hset.warnings_eq, h.warnings]
          exact (List.append_nil _).symm
      · intro name hname
        rw [List.mem_cons, hseen name hname]
        simp [or_comm, eq_comm]

/-- **The last value of a name counts, and everything that is passed over is noted.** For the nodes
of any document:

* There are no settings exactly if some node is wrong, even if a later node of its name is right,
  and then the error is that of the first wrong node.
* Otherwise each choice is what the last node of its name says, or that of a user who chooses
  nothing; and the warnings are those for the nodes that are unknown or stand behind a node of their
  name.
* The terms that are shown are those of the settings, without the one for comments if comments are
  not highlighted. -/
theorem last_value_counts (runtime : String) (nodes : List Kdl.Node) :
    (∀ text, parse runtime text = (Kdl.parse text).elim (.error .notKdl) (ofNodes runtime)) ∧
    ((∃ e, ofNodes runtime nodes = .error e) ↔ ∃ node ∈ nodes, node.IsWrong) ∧
    (∀ e, ofNodes runtime nodes = .error e ↔ FirstError nodes e) ∧
    (∀ s, ofNodes runtime nodes = .ok s ↔
      (∀ node ∈ nodes, ¬ node.IsWrong) ∧ Holds runtime nodes s) ∧
    ∀ (s : Settings) (t : Term), s.enabledTerms.contains t = true ↔
      t ∈ s.terms ∧ (t = "comment" → s.highlightComments = true) := by
  -- Either some node is wrong or none is, and either case excludes the other outcome.
  have hwrong (hnodes : ∃ node ∈ nodes, node.IsWrong) :
      ∃ e, FirstError nodes e ∧ ofNodes runtime nodes = .error e := by
    obtain ⟨e, he⟩ := exists_firstError hnodes
    exact ⟨e, he, applyNodes_of_firstError he⟩
  have hright (hnodes : ∀ node ∈ nodes, ¬ node.IsWrong) :
      ∃ s, ofNodes runtime nodes = .ok s ∧ Holds runtime nodes s :=
    exists_applyNodes_eq ⟨chooses_default runtime, rfl⟩ (by simp) hnodes
  have hno : (¬ ∃ node ∈ nodes, node.IsWrong) ↔ ∀ node ∈ nodes, ¬ node.IsWrong := by simp
  refine ⟨fun text => ?_, ⟨?_, ?_⟩, fun e => ⟨?_, applyNodes_of_firstError⟩,
    fun s => ⟨?_, ?_⟩, fun s t => ?_⟩
  · cases h : Kdl.parse text <;> rw [parse, h] <;> rfl
  · rintro ⟨e, he⟩
    by_contra hnone
    obtain ⟨s, hs, -⟩ := hright (hno.1 hnone)
    rw [he] at hs
    cases hs
  · intro hnodes
    obtain ⟨e, -, he⟩ := hwrong hnodes
    exact ⟨e, he⟩
  · intro he
    by_cases hnodes : ∃ node ∈ nodes, node.IsWrong
    · obtain ⟨e', hfirst, he'⟩ := hwrong hnodes
      rw [he] at he'
      cases he'
      exact hfirst
    · obtain ⟨s, hs, -⟩ := hright (hno.1 hnodes)
      rw [he] at hs
      cases hs
  · intro hs
    by_cases hnodes : ∃ node ∈ nodes, node.IsWrong
    · obtain ⟨e, -, he⟩ := hwrong hnodes
      rw [hs] at he
      cases he
    · obtain ⟨s', hs', hholds⟩ := hright (hno.1 hnodes)
      rw [hs] at hs'
      cases hs'
      exact ⟨hno.1 hnodes, hholds⟩
  · rintro ⟨hnodes, hholds⟩
    obtain ⟨s', hs', hholds'⟩ := hright hnodes
    rw [hs', hholds.unique hholds']
  · simp only [enabledTerms, NameSet.contains_ofList, decide_eq_true_eq, List.mem_filter,
      Bool.or_eq_true, bne_iff_ne, ne_eq, commentTerm]
    grind

end Settings

namespace Sample

/-- A document with an unknown node, and with two lists of languages. -/
def choices : List Kdl.Node :=
  [.mk "theme" [⟨none, .string "dark"⟩] [],
    .mk "languages" [⟨none, .string "c"⟩] [],
    .mk "highlight-comments" [⟨none, .bool false⟩] [],
    .mk "languages" [⟨none, .string "go"⟩, ⟨none, .string "rust"⟩, ⟨none, .string "go"⟩] []]

def negativeDelay : Kdl.Node := .mk "debounce-ms" [⟨none, .integer (-5)⟩] []

end Sample

/-- The second list of languages counts, and a negative delay is reported although a right one
follows. -/
theorem Settings.last_value_counts_choices :
    (∃ s, ofNodes "/opt" Sample.choices = .ok s ∧ s.languages = ["go", "rust"] ∧
      s.enabledTerms.contains "comment" = false ∧
      s.warnings = [.unknownNode "theme", .duplicate "languages"]) ∧
    ofNodes "/opt"
        (Sample.choices ++ [Sample.negativeDelay, .mk "debounce-ms" [⟨none, .integer 5⟩] []]) =
      .error (.invalidValue "debounce-ms" (.outOfRange (-5))) := by
  obtain ⟨-, -, -, hok, hshown⟩ := last_value_counts "/opt" Sample.choices
  obtain ⟨-, -, herror, -⟩ := last_value_counts "/opt"
    (Sample.choices ++ [Sample.negativeDelay, .mk "debounce-ms" [⟨none, .integer 5⟩] []])
  obtain ⟨s, hs⟩ : ∃ s, ofNodes "/opt" Sample.choices = .ok s := ⟨_, rfl⟩
  obtain ⟨hright, hholds⟩ := (hok s).1 hs
  have hnegative : ¬ Kind.natural.Holds (.integer (-5)) := by
    generalize hvalue : Kdl.Value.integer (-5) = value
    rintro ⟨⟩
    have hcast := Kdl.Value.integer.inj hvalue
    omega
  refine ⟨⟨s, hs, ?_, ?_, hholds.warnings.trans (by decide +kernel)⟩, ?_⟩
  · cases hs
    rfl
  · have hcomments : s.highlightComments = false := by
      cases hs
      rfl
    rw [← Bool.not_eq_true, hshown]
    exact fun h => absurd (hcomments.symm.trans (h.2 rfl)) nofun
  · refine (herror _).2 ⟨_, Sample.negativeDelay, _, _, rfl, hright, ?_, rfl⟩
    exact ⟨⟨.natural, true⟩, rfl,
      .value [] (.integer (-5)) [] (fun _ => ⟨rfl, rfl⟩) nofun hnegative⟩

end SyntaxHighlight
