import AtomicTables.Table.Basic

namespace AtomicTables

def recordKinds {σ : Type} [SlotFamily σ] (categories : CategorySet) (present : σ → Bool) (record : List σ) :
    OperationSet :=
  record.foldl (fun kinds s =>
    if categories.contains (SlotFamily.category s).asSet && present s then kinds ∪ (SlotFamily.kind s).asSet
    else kinds) ∅

def loadStoreKinds (categories : CategorySet) (store load : Bool) : OperationSet :=
  if categories.contains Category.loadStore.asSet then
    (if store then OperationKind.store.asSet else ∅) ∪ (if load then OperationKind.load.asSet else ∅)
  else ∅

def kindsWhere {σ : Type} [SlotFamily σ] (present : σ → Bool) (categories : CategorySet) : OperationSet :=
  ((SlotFamily.records : List (List σ)).map (recordKinds categories present)).foldl .union
    (loadStoreKinds categories (present SlotFamily.store) (present SlotFamily.load))

def definedKinds (σ : Type) [SlotFamily σ] (categories : CategorySet) : OperationSet :=
  kindsWhere (fun _ : σ => true) categories

structure NotOneCategory where
  categories : CategorySet

def NotOneCategory.message (e : NotOneCategory) : String :=
  "assertion `left == right` failed: feature_check_leaf: " ++ e.categories.render ++
    " is not a single category\n  left: " ++ toString e.categories.count ++ "\n right: 1"

namespace Table

variable {σ : Type} {F : σ → Type} [SlotFamily σ]

def supportedKinds (t : Table F) (categories : CategorySet) : OperationSet :=
  kindsWhere (fun s => (t s).isSome) categories

def someOf (t : Table F) (categories : CategorySet) : CategorySet :=
  .ofList (categories.categories.filter fun c => !(t.supportedKinds c.asSet).isEmpty)

/-- The categories that have slots, all of them filled. -/
def allOf (t : Table F) (categories : CategorySet) : CategorySet :=
  .ofList (categories.categories.filter fun c =>
    let defined := definedKinds σ c.asSet
    !defined.isEmpty && t.supportedKinds c.asSet == defined)

/-- Those of the kinds that have a filled slot in the one category. -/
def kindsIn (t : Table F) (category : CategorySet) (kinds : OperationSet) :
    Except NotOneCategory OperationSet :=
  if category.count = 1 then .ok (t.supportedKinds category ∩ kinds) else .error ⟨category⟩

end Table

end AtomicTables
