import StacProxy.JsonValue
import StacProxy.Rfc3339
import Mathlib.Data.List.Basic

/-!
# STAC items, origin links and the datetime an item is sorted by

The parts of `stac.Item` and `stac.Link` that the federation layer reads or
writes, with the remaining members carried along unread. A nil link is `none`.
The item type itself, its JSON codec and the treatment of foreign members belong
to a third-party library and are not modelled.
-/

namespace StacItem

open JsonValue Rfc3339

structure Link where
  href : String
  rel : String
  type : String := ""
  title : String := ""
  additionalFields : Members := []

structure Item where
  id : String
  collection : String
  properties : Members := []
  links : List (Option Link) := []
  otherMembers : Members := []

/-- What the merge identifies items by. -/
def Item.identity (item : Item) : String × String := (item.collection, item.id)

def originLinkRel : String := "stac_proxy:origin"

def originLink (originID originURL : String) : Link :=
  { href := originURL, rel := originLinkRel, type := "application/json", title := originID }

def Link.isOrigin (link : Option Link) : Bool :=
  link.any (fun l => l.rel == originLinkRel)

def Link.namesOrigin (originID : String) (link : Option Link) : Bool :=
  link.any (fun l => l.rel == originLinkRel && l.title == originID)

def addItemOriginLink (item : Item) (originID originURL : String) : Item :=
  if item.links.any (Link.namesOrigin originID) then item
  else { item with links := item.links ++ [some (originLink originID originURL)] }

/-- The title of the first origin link, or the empty string. -/
def itemOriginID (item : Item) : String :=
  match item.links.find? Link.isOrigin with
  | some (some link) => link.title
  | _ => ""

def parseItemDatetime (text : String) : Option Timestamp :=
  (parseTimestamp text).or (parseDate text)

def itemDatetime (item : Item) : Option Timestamp :=
  ["datetime", "start_datetime"].findSome? fun name =>
    (item.properties.get? name).bind Json.asString? |>.bind parseItemDatetime

/-- The text a page is sorted by. -/
def getDatetime (item : Item) : String :=
  match itemDatetime item with
  | some t => formatRfc3339 t
  | none => ((item.properties.get? "datetime").bind Json.asString?).getD ""

section OriginLinks
variable (item : Item) (originID originURL : String)

@[simp] theorem addItemOriginLink_id :
    (addItemOriginLink item originID originURL).id = item.id := by
  unfold addItemOriginLink
  split <;> rfl

@[simp] theorem addItemOriginLink_collection :
    (addItemOriginLink item originID originURL).collection = item.collection := by
  unfold addItemOriginLink
  split <;> rfl

@[simp] theorem addItemOriginLink_properties :
    (addItemOriginLink item originID originURL).properties = item.properties := by
  unfold addItemOriginLink
  split <;> rfl

@[simp] theorem addItemOriginLink_otherMembers :
    (addItemOriginLink item originID originURL).otherMembers = item.otherMembers := by
  unfold addItemOriginLink
  split <;> rfl

@[simp] theorem addItemOriginLink_identity :
    (addItemOriginLink item originID originURL).identity = item.identity := by
  simp [Item.identity]

@[simp] theorem getDatetime_addItemOriginLink :
    getDatetime (addItemOriginLink item originID originURL) = getDatetime item := by
  simp [getDatetime, itemDatetime]

variable {item originID}

theorem namesOrigin_isOrigin {link : Option Link} (names : Link.namesOrigin originID link) :
    Link.isOrigin link := by
  cases link with
  | none => simp [Link.namesOrigin] at names
  | some l => simp_all [Link.namesOrigin, Link.isOrigin]

/-- A link that is already there keeps its place as the item's origin. -/
theorem itemOriginID_add_of_linked (linked : item.links.any Link.isOrigin) :
    itemOriginID (addItemOriginLink item originID originURL) = itemOriginID item := by
  unfold addItemOriginLink
  split
  · rfl
  · obtain ⟨link, found⟩ := Option.isSome_iff_exists.mp (List.find?_isSome.mpr
      (List.any_eq_true.mp linked))
    simp [itemOriginID, List.find?_append, found]

/-- An item without an origin link is homed to the origin it is tagged with. -/
theorem itemOriginID_add_of_unlinked (unlinked : item.links.any Link.isOrigin = false) :
    itemOriginID (addItemOriginLink item originID originURL) = originID := by
  have none_names : item.links.any (Link.namesOrigin originID) = false := by
    rw [List.any_eq_false] at unlinked ⊢
    exact fun link member names => unlinked link member (namesOrigin_isOrigin names)
  have not_found : item.links.find? Link.isOrigin = none := by
    rw [List.find?_eq_none]
    exact List.any_eq_false.mp unlinked
  simp [addItemOriginLink, none_names, itemOriginID, List.find?_append, not_found,
    Link.isOrigin, originLink]

theorem addItemOriginLink_of_named (named : item.links.any (Link.namesOrigin originID)) :
    addItemOriginLink item originID originURL = item := by
  simp [addItemOriginLink, named]

theorem addItemOriginLink_linked :
    (addItemOriginLink item originID originURL).links.any (Link.namesOrigin originID) := by
  unfold addItemOriginLink
  split
  · assumption
  · simp [Link.namesOrigin, originLink]

end OriginLinks

end StacItem
