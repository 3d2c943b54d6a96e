/-!
# The sample application

A model with a name, and two pages that show all items there are.
-/

namespace CodeAtlas.Demonstration

structure Item where
  name : String
deriving DecidableEq, Repr

def Item.text (i : Item) : String := i.name

def Item.displayName (i : Item) : String := s!"Demo: {i.name}"

structure Page where
  template : String
  items : List String
deriving DecidableEq, Repr

def homePage (items : List String) : Page := ⟨"home_demo.html", items⟩

def itemsPage (items : List String) : Page := ⟨"partials/items_demo.html", items⟩

end CodeAtlas.Demonstration
