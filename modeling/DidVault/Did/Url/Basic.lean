/-!
# DID URLs

```text
did:<method>:<id>[;<name>[=<value>]...][/<segment>...][?<query>][#<fragment>]
```

A `DidUrl` holds the parts exactly as they are written: nothing is decoded, a
part that is absent and a part that is present but empty are told apart, and
`DidUrl.render` writes the text back.
-/

namespace DidVault

/-- One `;name` or `;name=value` parameter of a DID URL. -/
structure Param where
  name : String
  value : Option String
  deriving Repr, DecidableEq, Inhabited

/-- The parts of a DID URL. -/
structure DidUrl where
  /-- The name of the method, between the first two colons. -/
  method : String
  /-- The method-specific identifier, with the colons inside it. -/
  id : String
  params : List Param
  path : List String
  query : Option String
  fragment : Option String
  deriving Repr, DecidableEq, Inhabited

/-- The text of a parameter, with its semicolon. -/
def Param.render (param : Param) : String :=
  match param.value with
  | none => ";" ++ param.name
  | some value => ";" ++ param.name ++ "=" ++ value

namespace DidUrl

/-- What follows the method-specific identifier: parameters, path, query and
fragment. -/
def renderSuffix (params : List Param) (path : List String)
    (query fragment : Option String) : String :=
  String.join (params.map Param.render)
    ++ String.join (path.map ("/" ++ ·))
    ++ (query.map ("?" ++ ·)).getD ""
    ++ (fragment.map ("#" ++ ·)).getD ""

/-- The text of a DID URL. -/
def render (url : DidUrl) : String :=
  "did:" ++ url.method ++ ":" ++ url.id
    ++ renderSuffix url.params url.path url.query url.fragment

end DidUrl

end DidVault
