import ReactiveView.Page.Basic

namespace ReactiveView

inductive Outline (Face : Type) where
  | text (data : String)
  | element (el : Element Face) (children : List (Outline Face))

namespace Page

variable {dom : Dom}

def outline (page : Page dom) : Nat → Nat → Option (Outline dom.Face)
  | 0, _ => none
  | depth + 1, id =>
    page.elements[id]?.map fun el =>
      .element el <| el.children.filterMap fun child =>
        match child with
        | .text own => page.texts[own]?.map fun text => .text text.data
        | .element inner => outline page depth inner

/-- Outlines of the elements in the container. Elements stand inside earlier ones, so their number bounds how deep
they are nested. -/
def outlines (page : Page dom) : List (Outline dom.Face) :=
  page.container.filterMap (page.outline page.elements.length)

end Page

end ReactiveView
