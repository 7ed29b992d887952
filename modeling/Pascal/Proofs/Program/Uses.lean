import Pascal.Proofs.Group.Tokens
import Pascal.Proofs.Program.Files
import Pascal.Proofs.Program.Session

/-!
# What texts use

The names behind `uses` are read off the items of a text, apart from the reader. A reader that is done
with the items has passed over all of them in their order.
-/

namespace Pascal

namespace Item

def isUsesWord : Item → Bool
  | token t => t.kind.isKeyword .uses
  | _ => false

/-- The names in the clauses of some items. A clause goes from `uses` to the next semicolon; the first
item may stand in a clause itself. -/
def usedNames : Bool → List Item → List String
  | _, [] => []
  | false, i :: is => usedNames i.isUsesWord is
  | true, i :: is =>
    match i with
    | token ⟨.identifier name, _⟩ => name :: usedNames true is
    | token t => usedNames (!t.kind.isSymbol .semicolon) is
    | _ => usedNames true is

/-- The names in clauses are those of tokens. -/
theorem exists_token_of_usedNames {name : String} {inClause : Bool} {items : List Item}
    (h : name ∈ usedNames inClause items) : ∃ p, token ⟨.identifier name, p⟩ ∈ items := by
  induction items generalizing inClause with
  | nil => cases inClause <;> cases h
  | cons i is ih =>
    have hrest : ∀ {b}, name ∈ usedNames b is → ∃ p, token ⟨.identifier name, p⟩ ∈ i :: is := by
      intro b hb
      obtain ⟨p, hp⟩ := ih hb
      exact ⟨p, List.mem_cons_of_mem _ hp⟩
    cases inClause with
    | false => exact hrest h
    | true =>
      unfold usedNames at h
      split at h
      · next p =>
        rcases List.mem_cons.mp h with rfl | h
        · exact ⟨p, List.mem_cons_self⟩
        · exact hrest h
      · exact hrest h
      · exact hrest h

end Item

/-- What stands in the group of a unit that comes first in a text. -/
def Group.unitItems (g : Group) : List Item :=
  match g.items with
  | .group .unit _ _ items :: _ => items
  | _ => []

/-- The names in the clauses of a text have no slash in them. -/
theorem Group.slash_notMem_usedNames {sources : Sources} {unit source name : String} {items : List Item}
    (hitems : items = (Group.assemble sources unit source).items ∨
      items = (Group.assemble sources unit source).unitItems)
    (h : name ∈ Item.usedNames false items) : '/' ∉ name.toList := by
  obtain ⟨p, hp⟩ := Item.exists_token_of_usedNames h
  have htokens : ⟨.identifier name, p⟩ ∈
      Item.tokensOf (Group.assemble sources unit source).items := by
    rcases hitems with rfl | rfl
    · exact Item.mem_tokensOf.mpr ⟨_, hp, by simp [Item.tokens]⟩
    · unfold Group.unitItems at hp
      split at hp
      · next opened closed items rest hgroup =>
        refine Item.mem_tokensOf.mpr ⟨.group .unit opened closed items, ?_, ?_⟩
        · rw [hgroup]
          exact List.mem_cons_self
        · have hinside : ⟨.identifier name, p⟩ ∈ Item.tokensOf items :=
            Item.mem_tokensOf.mpr ⟨_, hp, by simp [Item.tokens]⟩
          simp [Item.tokens, hinside]
      · cases hp
  exact Group.slash_notMem htokens rfl

namespace Toolchain

variable (t : Toolchain)

/-- Whether a name behind `uses` is that of a library. -/
def isLibrary (name : String) : Bool := (Library.find? t.libraries name).isSome

/-- The names in lower case of those of some names that mean units. -/
def unitKeys (names : List String) : List String :=
  (names.filter fun name => !t.isLibrary name).map Text.lower

/-- The units that the text of a program uses. -/
def programKeys (unit source : String) : List String :=
  t.unitKeys (Item.usedNames false (Group.assemble t.sources unit source).items)

/-- The units that a unit uses, in its interface and in its implementation. -/
def usedKeys (name : String) : List String :=
  match t.unitSource name default with
  | .ok source => t.unitKeys (Item.usedNames false (Group.assemble t.sources name source).unitItems)
  | .error _ => []

theorem unitKeys_append (names names' : List String) :
    t.unitKeys (names ++ names') = t.unitKeys names ++ t.unitKeys names' := by
  simp [unitKeys]

end Toolchain

/-- The library of a name that is known, or else that of the toolchain, is there if the toolchain has
one. -/
theorem Session.isSome_library? {t : Toolchain} {strict : Prop} {s : Session} (h : s.Sound t strict)
    (name : String) : (s.library? t name).isSome = t.isLibrary name := by
  unfold Session.library? Toolchain.isLibrary
  cases hknown : s.arena.libraryNamed? name with
  | none => cases hfind : Library.find? t.libraries name <;> rfl
  | some id =>
    obtain ⟨hlt, hname, -⟩ := Array.findIdx?_eq_some_iff_getElem.mp hknown
    obtain ⟨l, hl, hlower⟩ := h.lists _ (Array.getElem_mem hlt)
    have hsame : Text.sameName l.name name := by
      rw [hlower] at hname
      exact hname
    exact (List.find?_isSome.mpr ⟨l, hl, hsame⟩).symm

namespace Cursor

/-- A cursor in front of clauses with some names, outside of a clause. -/
def Waits (names : List String) (c : Cursor) : Prop := Item.usedNames false c.items = names

/-- A cursor inside a clause, with some names to come in it and in later ones. -/
def InClause (names : List String) (c : Cursor) : Prop := Item.usedNames true c.items = names

variable {c : Cursor} {names : List String}

private theorem items_of_kind {k : Token.Kind} (h : c.kind? = some k) :
    ∃ p, c.items = .token ⟨k, p⟩ :: c.behind.items := by
  unfold kind? at h
  split at h
  · next t is hitems =>
    cases h
    exact ⟨t.pos, by simp [behind, hitems]⟩
  · cases h

theorem Waits.behind (h : c.Waits names) (hk : c.kind? ≠ some (.keyword .uses)) :
    c.behind.Waits names := by
  unfold Waits at h ⊢
  unfold Cursor.behind
  rcases hitems : c.items with _ | ⟨i, is⟩
  · rwa [hitems] at h
  · have hword : i.isUsesWord = false := by
      by_contra hword
      rw [Bool.not_eq_false] at hword
      unfold Item.isUsesWord at hword
      split at hword
      · next t =>
        have hkind : t.kind = .keyword .uses := Token.Kind.isKeyword_iff.mp hword
        exact hk (by simp [kind?, hitems, hkind])
      · cases hword
    rwa [hitems, Item.usedNames, hword] at h

theorem Waits.uses (h : c.Waits names) (hk : c.kind? = some (.keyword .uses)) :
    c.behind.InClause names := by
  obtain ⟨p, hitems⟩ := items_of_kind hk
  rwa [Waits, hitems] at h

theorem InClause.identifier {name : String} (h : c.InClause names)
    (hk : c.kind? = some (.identifier name)) : ∃ rest, names = name :: rest ∧ c.behind.InClause rest := by
  obtain ⟨p, hitems⟩ := items_of_kind hk
  rw [InClause, hitems] at h
  exact ⟨_, h.symm, rfl⟩

theorem InClause.comma (h : c.InClause names) (hk : c.kind? = some (.symbol .comma)) :
    c.behind.InClause names := by
  obtain ⟨p, hitems⟩ := items_of_kind hk
  rwa [InClause, hitems] at h

theorem InClause.semicolon (h : c.InClause names) (hk : c.kind? = some (.symbol .semicolon)) :
    c.behind.Waits names := by
  obtain ⟨p, hitems⟩ := items_of_kind hk
  rwa [InClause, hitems] at h

theorem guard_waits (names : List String) : Guard true (Waits names) := guard_true Waits.behind

end Cursor

end Pascal
