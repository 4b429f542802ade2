import TypedClients.Client.Axios
import TypedClients.Client.Fetch
import TypedClients.Generator.Registry

namespace TypedClients.Client

def pascalTitle (name : String) : String := (Name.ofText name).pascal

def mutatorDependency (m : Mutator) : Dependency :=
  ⟨m.path, [{ name := m.name, isDefault := m.isDefault }]⟩

def customDependencies (o : DependencyOptions) : List Dependency :=
  o.mutators.map mutatorDependency ++
    if o.hasQueryParams then (o.paramsSerializer.map mutatorDependency).toList else []

def flushed (c : UnitContext) (d : Deferred) : String :=
  Text.join "\n\n" (d.flush c.operationNames)

def fetch : Backend where
  id := "fetch"
  title := pascalTitle
  header _ := .ok ""
  footer c d := .ok (flushed c d)
  dependencies := customDependencies
  client c e d := (.ok ⟨fetchText e c.target, e.modelRefs⟩, d)

def factoryName (title : String) : String := "get" ++ title

def axiosHeader (style : AxiosStyle) (c : UnitContext) : String :=
  match style with
  | .factory => "export const " ++ factoryName c.title ++ " = () => \x7b"
  | .functions => ""

def axiosExports (style : AxiosStyle) (c : UnitContext) : String :=
  let names := Text.join ", " c.operationNames
  match style with
  | .factory => "  return \x7b " ++ names ++ " \x7d;\n\x7d;"
  | .functions => if names = "" then "" else "export \x7b " ++ names ++ " \x7d;"

def axiosFooter (style : AxiosStyle) (c : UnitContext) (d : Deferred) : String :=
  Text.join "\n\n" ([axiosExports style c, flushed c d].filter (· != ""))

def axiosDependency : Dependency :=
  ⟨"axios", [{ name := "axios", isDefault := true },
    { name := "AxiosRequestConfig", typeOnly := true },
    { name := "AxiosResponse", typeOnly := true }]⟩

def AxiosStyle.factory? (style : AxiosStyle) (unit : String) : Option String :=
  match style with
  | .factory => some (factoryName (pascalTitle unit))
  | .functions => none

def axios (style : AxiosStyle) : Backend where
  id := match style with
    | .factory => "axios"
    | .functions => "axios-functions"
  title := pascalTitle
  header c := .ok (axiosHeader style c)
  footer c d := .ok (axiosFooter style c d)
  dependencies o := axiosDependency :: customDependencies o
  client c e d := (.ok ⟨axiosText e c.target, e.modelRefs⟩,
    d.register e.name.camel (axiosDeferred e c.target (style.factory? c.unit)))

def registerAll (r : Registry) : Registry :=
  ((r.register fetch).register (axios .factory)).register (axios .functions)

end TypedClients.Client
