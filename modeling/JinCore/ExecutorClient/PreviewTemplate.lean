import JinCore.ExecutorClient.DemoEnv
import JinCore.Security.InjectionSanitizer

/-!
# From the input of the tool to the request (`preview-template.logic.ts`)

* `PreviewServiceToolInput`, `StartPreviewServiceInput`   the input of the tool, and the request;
* `secretFilePattern`, `findSecretFiles`   the files that are not published;
* `parseDb`, `parseSecrets`, `validateNodePackageJson`   the checks, each with the message of its error;
* `staticServerSource`   the server of the template `static`;
* `expandPreviewTemplate`; `env_of_expandPreviewTemplate`, `expandPreviewTemplate_envNames`.
-/

namespace ExecutorClient
open JsString Common
open Security (joinWith)

/-- `Record<string, string>`, in the order of its keys -/
abbrev Files := List (JsString × JsString)

/-- the input as the model or the owner writes it -/
structure PreviewServiceToolInput where
  files : Files
  template : Option JsString
  command : Option (List JsString)
  port : Option Int
  ttlSeconds : Int
  slugHint : Option JsString
  mailEgress : Option Bool
  db : Option JsString
  secrets : Option (List JsString)
  /-- the names of the variables only -/
  envNames : Option (List JsString)
  deriving DecidableEq, Repr

/-- the request to the Executor; `mailEgress` and `npm` are there only where they are `true` -/
structure StartPreviewServiceInput where
  files : Files
  command : List JsString
  port : Int
  ttlSeconds : Int
  slugHint : Option JsString
  mailEgress : Bool
  npm : Bool
  db : Option JsString
  secrets : Option (List JsString)
  env : Option Env
  requestId : Option JsString
  deriving DecidableEq, Repr

/-- a parsed JSON text -/
inductive JsonValue where
  | null
  | bool (value : Bool)
  | number (text : JsString)
  | string (value : JsString)
  | array (items : List JsonValue)
  | object (members : List (JsString × JsonValue))

/-- the member of a name, where there is one -/
def JsonValue.member (name : JsString) : JsonValue → Option JsonValue
  | .object members => (members.find? fun m => m.1 = name).map Prod.snd
  | _ => none

def JsonValue.isString : Option JsonValue → Bool
  | some (.string _) => true
  | _ => false

def staticTemplate : JsString := lit "static"

def staticTemplatePort : Int := 8080

def staticServerPath : JsString := lit ".jin/static-server.mjs"

def nodeTemplate : JsString := lit "node"

def demoDbEngines : List JsString := [lit "sqlite", lit "redis", lit "postgres", lit "mongodb"]

def dbNeedsNodeTemplate : List JsString := [lit "redis", lit "postgres", lit "mongodb"]

def nodeTemplatePort : Int := 8080

def nodeTemplateCommand : List JsString :=
  [lit "sh", lit "-c", lit "if [ -f package-lock.json ]; then npm ci; else npm install; fi && "
    ++ lit "npm run build --if-present && exec npm start"]

def maxSecrets : Nat := 5

def staticServerSource : JsString := joinWith (lit "\n") [
  lit "import \x7b createServer \x7d from 'node:http';",
  lit "import \x7b readFile, stat \x7d from 'node:fs/promises';",
  lit "import \x7b extname, join, normalize, resolve, sep \x7d from 'node:path';",
  lit "",
  lit "const ROOT = resolve(process.cwd());",
  lit "const PORT = 8080;",
  lit "const TYPES = \x7b",
  lit "  '.html': 'text/html; charset=utf-8',",
  lit "  '.js': 'text/javascript; charset=utf-8',",
  lit "  '.mjs': 'text/javascript; charset=utf-8',",
  lit "  '.jsx': 'text/javascript; charset=utf-8',",
  lit "  '.css': 'text/css; charset=utf-8',",
  lit "  '.json': 'application/json; charset=utf-8',",
  lit "  '.svg': 'image/svg+xml',",
  lit "  '.png': 'image/png',",
  lit "  '.jpg': 'image/jpeg',",
  lit "  '.jpeg': 'image/jpeg',",
  lit "  '.gif': 'image/gif',",
  lit "  '.webp': 'image/webp',",
  lit "  '.ico': 'image/x-icon',",
  lit "  '.txt': 'text/plain; charset=utf-8',",
  lit "  '.md': 'text/plain; charset=utf-8',",
  lit "\x7d;",
  lit "",
  lit "function safePath(urlPath) \x7b",
  lit "  let decoded;",
  lit "  try \x7b",
  lit "    decoded = decodeURIComponent(urlPath.split('?')[0]);",
  lit "  \x7d catch \x7b",
  lit "    return null;",
  lit "  \x7d",
  lit "  const full = resolve(join(ROOT, normalize(decoded)));",
  lit "  if (full !== ROOT && !full.startsWith(ROOT + sep)) return null;",
  lit "  // Ningún archivo ni carpeta oculta (.env, .git, .jin…) se sirve; solo .well-known.",
  lit "  const relative = full.slice(ROOT.length).split(sep).filter(Boolean);",
  lit "  if (relative.some((part) => part.startsWith('.') && part !== '.well-known')) return null;",
  lit "  return full;",
  lit "\x7d",
  lit "",
  lit "async function fileAt(path) \x7b",
  lit "  try \x7b",
  lit "    const info = await stat(path);",
  lit "    if (info.isFile()) return path;",
  lit "    if (info.isDirectory()) \x7b",
  lit "      const index = join(path, 'index.html');",
  lit "      const indexInfo = await stat(index).catch(() => null);",
  lit "      return indexInfo?.isFile() ? index : null;",
  lit "    \x7d",
  lit "  \x7d catch \x7b\x7d",
  lit "  return null;",
  lit "\x7d",
  lit "",
  lit "createServer(async (req, res) => \x7b",
  lit "  res.setHeader('X-Content-Type-Options', 'nosniff');",
  lit "  if (req.method !== 'GET' && req.method !== 'HEAD') \x7b",
  lit "    res.writeHead(405, \x7b Allow: 'GET, HEAD' \x7d).end();",
  lit "    return;",
  lit "  \x7d",
  lit "  const requested = safePath(req.url ?? '/');",
  lit "  if (!requested) \x7b",
  lit "    res.writeHead(404).end('No encontrado');",
  lit "    return;",
  lit "  \x7d",
  lit "  let file = await fileAt(requested);",
  lit "  if (!file && extname(requested) === '') file = await fileAt(join(ROOT, 'index.html'));",
  lit "  if (!file) \x7b",
  lit "    res.writeHead(404).end('No encontrado');",
  lit "    return;",
  lit "  \x7d",
  lit "  const body = await readFile(file);",
  lit "  res.writeHead(200, \x7b",
  lit "    'Content-Type': TYPES[extname(file).toLowerCase()] ?? 'application/octet-stream',",
  lit "    'Cache-Control': 'no-cache',",
  lit "  \x7d);",
  lit "  res.end(req.method === 'HEAD' ? undefined : body);",
  lit "\x7d).listen(PORT, '0.0.0.0', () => \x7b",
  lit "  console.log('jin static server en :' + PORT);",
  lit "\x7d);",
  lit ""
]

/-! ## files that look like secrets -/

/-- a code unit under the flag `i`: only the ASCII letters of the patterns have two forms -/
def lowerUnit (u : UInt16) : UInt16 := if isUpper u then u + 0x20 else u

/-- what `.` matches -/
def isDot (u : UInt16) : Bool := decide (u ≠ 0x0A ∧ u ≠ 0x0D ∧ u ≠ 0x2028 ∧ u ≠ 0x2029)

/-- `head(\..*)?`, with at least `least` characters after the dot -/
def withSuffix (head : JsString) (least : Nat) (us : List UInt16) : Bool :=
  let dotted := head ++ lit "."
  let rest := us.drop dotted.units.length
  decide (us = head.units) ||
    (dotted.units.isPrefixOf us && decide (least ≤ rest.length) && rest.all isDot)

/-- `.+\.extension` -/
def withExtension (extension : JsString) (us : List UInt16) : Bool :=
  let dotted := lit "." ++ extension
  let start := us.take (us.length - dotted.units.length)
  dotted.units.isSuffixOf us && decide (0 < start.length) && start.all isDot

/-- `/^(\.env(\..+)?|.+\.(pem|key|p12|pfx)|id_(rsa|ed25519|ecdsa)(\..*)?|\.npmrc|\.netrc|brevo\.json)$/i` -/
def secretFilePattern (base : JsString) : Bool :=
  let us := base.units.map lowerUnit
  withSuffix (lit ".env") 1 us ||
    [lit "pem", lit "key", lit "p12", lit "pfx"].any (fun extension => withExtension extension us) ||
    [lit "id_rsa", lit "id_ed25519", lit "id_ecdsa"].any (fun head => withSuffix head 0 us) ||
    [lit ".npmrc", lit ".netrc", lit "brevo.json"].any fun name => decide (us = name.units)

/-- `/\.(example|sample|template)$/i` -/
def secretFileTemplateSuffix (base : JsString) : Bool :=
  [lit ".example", lit ".sample", lit ".template"].any fun suffix =>
    suffix.units.isSuffixOf (base.units.map lowerUnit)

/-- `path.split('/').pop()` -/
def baseName (path : JsString) : JsString := ⟨(path.units.reverse.takeWhile (· ≠ 0x2F)).reverse⟩

def findSecretFiles (files : Files) : List JsString :=
  (files.map Prod.fst).filter fun path =>
    secretFilePattern (baseName path) && !secretFileTemplateSuffix (baseName path)

/-! ## the checks; an error is its message -/

def rejectSecretFiles (files : Files) : Except JsString Unit :=
  let found := findSecretFiles files
  if found = [] then .ok ()
  else .error (lit "Estos archivos parecen secretos y no se publican: " ++ joinWith (lit ", ") found
    ++ lit ". Las claves van como variables de entorno (se piden por aparte), "
    ++ lit "nunca como archivos del proyecto.")

def quoted (s : JsString) : JsString := lit "\"" ++ s ++ lit "\""

def parseDb : Option JsString → Except JsString (Option JsString)
  | none => .ok none
  | some db =>
    if db ∈ demoDbEngines then .ok (some db)
    else .error (lit "db desconocida: " ++ quoted db ++ lit ". Valores válidos: "
      ++ joinWith (lit ", ") (demoDbEngines.map quoted) ++ lit ".")

/-- `/^[a-z0-9][a-z0-9-]{0,38}$/` -/
def secretNamePattern (name : JsString) : Bool :=
  match name.units with
  | [] => false
  | u :: us => (isLower u || isDigit u) && (decide (us.length ≤ 38) &&
      us.all fun u => isLower u || isDigit u || decide (u = 0x2D))

def parseSecrets : Option (List JsString) → Except JsString (Option (List JsString))
  | none | some [] => .ok none
  | some secrets =>
    if maxSecrets < secrets.length then
      .error (lit "secrets admite como máximo " ++ natText maxSecrets ++ lit " nombres.")
    else
      match secrets.find? fun name => !secretNamePattern name with
      | some name => .error (lit "Nombre de secreto inválido: " ++ quoted name
          ++ lit " (minúsculas, números y guiones; es el nombre, NO el valor).")
      | none => .ok (some secrets.eraseDups)

def fileAt (files : Files) (path : JsString) : Option JsString :=
  (files.find? fun file => file.1 = path).map Prod.snd

section
-- `JSON.parse`, `none` where it throws
variable (parseJson : JsString → Option JsonValue)

def validateNodePackageJson (files : Files) : Except JsString Unit :=
  match fileAt files (lit "package.json") with
  | none => .error (lit "template \"node\" necesita un package.json en la raíz "
      ++ lit "(con dependencies y scripts.start).")
  | some raw =>
    match parseJson raw with
    | none => .error (lit "package.json no es JSON válido.")
    | some pkg =>
      let start := (pkg.member (lit "scripts")).bind (JsonValue.member (lit "start"))
      if JsonValue.isString start || JsonValue.isString (pkg.member (lit "main")) then .ok ()
      else .error (lit "package.json necesita scripts.start (o main) para saber cómo arrancar. "
        ++ lit "El servidor debe escuchar en process.env.PORT.")

/-- `db` goes with the template -/
def checkDbTemplate (input : PreviewServiceToolInput) : Option JsString → Except JsString Unit
  | none => .ok ()
  | some db =>
    if input.template = some staticTemplate then
      .error (lit "db no se puede usar con template \"static\": no tiene backend. "
        ++ lit "Usá template: \"node\" (frontend y API en un servidor Node).")
    else if db ∈ dbNeedsNodeTemplate ∧ input.template ≠ some nodeTemplate then
      .error (db ++ lit " necesita una librería cliente de npm: usá template: \"node\" con un "
        ++ lit "package.json que la declare. (sqlite sí funciona sin npm, con node:sqlite).")
    else .ok ()

/-- the request of a template: its files, command and port -/
def expandFiles (input : PreviewServiceToolInput) :
    Except JsString (Files × List JsString × Int × Bool) :=
  match input.template with
  | none =>
    match input.command, input.port with
    | some (word :: words), some port => .ok (input.files, word :: words, port, false)
    | _, _ => .error (lit "Sin template hay que indicar command y port. Para una web con "
        ++ lit "React/Tailwind usá template: \"static\" con un index.html (dependencias desde CDN): "
        ++ lit "el pod no tiene internet para npm install.")
  | some template =>
    if template = nodeTemplate then
      (validateNodePackageJson parseJson input.files).map fun _ =>
        (input.files, nodeTemplateCommand, nodeTemplatePort, true)
    else if template ≠ staticTemplate then
      .error (lit "template desconocido: " ++ quoted template
        ++ lit ". Valores válidos: \"static\", \"node\".")
    else if fileAt input.files (lit "index.html") = none then
      .error (lit "template \"static\" necesita un archivo index.html en la raíz.")
    else if fileAt input.files staticServerPath ≠ none then
      .error (staticServerPath ++ lit " está reservado para el servidor de la plantilla.")
    else .ok (input.files ++ [(staticServerPath, staticServerSource)],
      [lit "node", staticServerPath], staticTemplatePort, false)

def expandPreviewTemplate (input : PreviewServiceToolInput) :
    Except JsString StartPreviewServiceInput := do
  rejectSecretFiles input.files
  let db ← parseDb input.db
  let secrets ← parseSecrets input.secrets
  checkDbTemplate input db
  let (files, command, port, npm) ← expandFiles parseJson input
  return {
    files := files
    command := command
    port := port
    ttlSeconds := input.ttlSeconds
    slugHint := input.slugHint
    mailEgress := decide (input.mailEgress = some true)
    npm := npm
    db := db
    secrets := secrets
    env := none
    requestId := none }

variable {parseJson} {input : PreviewServiceToolInput} {request : StartPreviewServiceInput}

/-- the expansion of an input has no values -/
theorem env_of_expandPreviewTemplate (h : expandPreviewTemplate parseJson input = .ok request) :
    request.env = none ∧ request.requestId = none := by
  unfold expandPreviewTemplate at h
  obtain ⟨_, -, h⟩ := bind_eq_ok.mp h
  obtain ⟨db, -, h⟩ := bind_eq_ok.mp h
  obtain ⟨secrets, -, h⟩ := bind_eq_ok.mp h
  obtain ⟨_, -, h⟩ := bind_eq_ok.mp h
  obtain ⟨⟨files, command, port, npm⟩, -, h⟩ := bind_eq_ok.mp h
  cases h
  exact ⟨rfl, rfl⟩

/-- nor does it look at their names -/
theorem expandPreviewTemplate_envNames (names : Option (List JsString)) :
    expandPreviewTemplate parseJson { input with envNames := names } =
      expandPreviewTemplate parseJson input := rfl

end

end ExecutorClient
