import Typecase.Listing

/-!
# Coverage overrides

An override is an entry of a whitelist or a blacklist: it forces one font onto a block, or
keeps it out of the block, whatever the font covers. The block is given by name, and the name
`*` stands for every block.
-/

namespace Typecase

/-- The blocks that an override applies to. -/
inductive Scope where
  | everyBlock
  | named (name : String)
  deriving DecidableEq, Repr

namespace Scope

/-- The scope that a block field denotes: `*` is every block, any other text a name. -/
def ofField (field : String) : Scope := if field = "*" then .everyBlock else .named field

/-- The field that denotes a scope. -/
def toField : Scope → String
  | .everyBlock => "*"
  | .named name => name

/-- Whether the block called `name` is in the scope. -/
def covers : Scope → String → Bool
  | .everyBlock, _ => true
  | .named n, name => n == name

@[simp] theorem covers_everyBlock (name : String) : covers .everyBlock name = true := rfl

@[simp] theorem covers_named (n name : String) : covers (.named n) name = (n == name) := rfl

@[simp] theorem ofField_star : ofField "*" = .everyBlock := rfl

end Scope

/-- One font forced onto, or kept out of, the blocks in a scope. -/
structure Override where
  scope : Scope
  font : String
  deriving DecidableEq, Repr

namespace Override

/-- The override that a block field and a font name denote. -/
def ofPair (block font : String) : Override := ⟨Scope.ofField block, font⟩

/-- Whether the override is about this font in this block. -/
def concerns (o : Override) (font block : String) : Bool := o.font == font && o.scope.covers block

/-- Reads one override from the fields of its line: a block and a font. -/
def ofFields : List (List Char) → Except Flaw Override
  | block :: font :: _ => .ok (ofPair (String.ofList block) (String.ofList font))
  | _ => .error .missingField

/-- Reads a list of overrides. -/
def readList (text : String) : Listing Override := Listing.ofText (fun _ => ofFields) text

example : readList "* a.ttf\nGreek b.ttf x\n\nLatin" =
    ⟨[⟨.everyBlock, "a.ttf"⟩, ⟨.named "Greek", "b.ttf"⟩], some ⟨4, .missingField⟩⟩ := by decide

end Override

end Typecase
