import IdlFormat.Documentation.Entry

/-!
# The words of the interface language

The words that the help knows, in the order of their kinds: keywords, directives, attributes, types
and modifiers.
-/

namespace IdlFormat

namespace Documentation

/-- The entry of a word with the name of its page and the lines of its sample, if there is one. -/
def listed (name : String) (category : Category) (page description : String)
    (synopsis : Option String) (sample : List String) : Entry where
  name := name.toList
  category := category
  description := description.toList
  synopsis := synopsis.map String.toList
  sample := if sample.isEmpty then none else some (Text.joinLines (sample.map String.toList))
  url := urlOf page.toList

/-- The entries of all words. -/
def words : List Entry := [
  listed "interface" .keyword "interface"
    ("Declares a COM or RPC interface. COM interfaces carry the [object] attribute and " ++
     "derive from IUnknown; RPC interfaces describe remote procedure calls.")
    (some "[attributes] interface interface-name [: base-interface] \x7b ... \x7d")
    ["[object, uuid(12345678-1234-1234-1234-123456789ABC)]",
     "interface IMyInterface : IUnknown",
     "\x7b",
     "    HRESULT Method([in] long param);",
     "\x7d;"],
  listed "coclass" .keyword "coclass"
    ("Declares a component class and the interfaces it implements. Its UUID is the CLSID " ++
     "passed to CoCreateInstance.")
    (some "[attributes] coclass classname \x7b [interface-attrs] interface name; \x7d")
    ["[uuid(12345678-1234-1234-1234-123456789ABC)]",
     "coclass MyClass",
     "\x7b",
     "    [default] interface IMyInterface;",
     "\x7d;"],
  listed "library" .keyword "library"
    ("Declares a type library holding interfaces, coclasses and other type information. " ++
     "MIDL emits a .tlb file for each library block.")
    (some "[uuid(...), version(...)] library name \x7b ... \x7d")
    ["[uuid(12345678-1234-1234-1234-123456789ABC), version(1.0)]",
     "library MyLib",
     "\x7b",
     "    importlib(\"stdole2.tlb\");",
     "\x7d;"],
  listed "dispinterface" .keyword "dispinterface"
    ("Declares an interface callable only through IDispatch::Invoke, listing its properties " ++
     "and methods separately.")
    (some "[attributes] dispinterface name \x7b properties: ... methods: ... \x7d") [],
  listed "module" .keyword "module"
    "Groups global constants and DLL entry points inside a type library."
    (some "[attributes] module name \x7b elementlist \x7d;") [],
  listed "struct" .keyword "struct"
    ("Declares a structure type. Combined with typedef it usually also names one or more " ++
     "aliases after the closing brace.")
    (some "typedef [attributes] struct [tag] \x7b members \x7d name[, *pname];")
    ["typedef struct tagRECT",
     "\x7b",
     "    long left;",
     "    long top;",
     "\x7d RECT, *PRECT;"],
  listed "union" .keyword "union"
    ("Declares a union. MIDL supports encapsulated unions and nonencapsulated unions " ++
     "discriminated through switch_is.")
    (some "typedef [switch_type(type)] union [tag] \x7b case-list \x7d name;") [],
  listed "enum" .keyword "enum"
    ("Declares an enumeration. Values are transmitted as 16-bit integers unless the type " ++
     "carries the [v1_enum] attribute.")
    (some "typedef [v1_enum] enum [tag] \x7b A, B = 2, C \x7d name;")
    ["typedef enum Color",
     "\x7b",
     "    Red,",
     "    Green = 2,",
     "    Blue",
     "\x7d Color;"],
  listed "typedef" .keyword "typedef"
    ("Assigns a name to a type, optionally with type attributes placed between the keyword " ++
     "and the type.")
    (some "typedef [attributes] type-specifier declarator-list;") [],
  listed "import" .keyword "import"
    ("Makes the types, constants and interfaces of another IDL file available without " ++
     "generating stubs for them.")
    (some "import \"filename.idl\"[, \"other.idl\"];")
    ["import \"oaidl.idl\";"],
  listed "importlib" .keyword "importlib"
    "Imports a compiled type library into the current library block."
    (some "importlib(\"library.tlb\");") [],
  listed "switch" .keyword "switch"
    "Names the discriminant of an encapsulated union."
    (some "union switch (type name) union-name \x7b ... \x7d") [],
  listed "case" .keyword "case"
    "Selects a union arm for one or more discriminant values."
    (some "[case(value[, value...])] type member;") [],
  listed "cpp_quote" .directive "cpp-quote"
    "Copies its string argument verbatim into the generated header file."
    (some "cpp_quote(\"text\")")
    ["cpp_quote(\"#include <windows.h>\")"],
  listed "midl_pragma" .directive "midl-pragma-warning"
    "Enables or disables individual MIDL compiler warnings."
    (some "midl_pragma warning (disable: number)") [],
  listed "object" .attributeName "object"
    "Marks an interface as a COM interface rather than an RPC interface."
    none [],
  listed "uuid" .attributeName "uuid"
    "Assigns the 128-bit globally unique identifier of an interface, class or library."
    (some "uuid(xxxxxxxx-xxxx-xxxx-xxxx-xxxxxxxxxxxx)") [],
  listed "local" .attributeName "local"
    "Tells MIDL to generate only header declarations, with no marshaling code."
    none [],
  listed "dual" .attributeName "dual"
    ("Declares an interface that exposes its members both through IDispatch and through the " ++
     "vtable.")
    none [],
  listed "oleautomation" .attributeName "oleautomation"
    ("Restricts an interface to Automation-compatible types so the universal marshaler can " ++
     "handle it.")
    none [],
  listed "pointer_default" .attributeName "pointer-default"
    ("Sets the default pointer attribute (ref, unique or ptr) for pointers that are not " ++
     "parameters.")
    (some "pointer_default(unique)") [],
  listed "version" .attributeName "version"
    "Identifies a particular version among multiple versions of an interface or library."
    (some "version(major[.minor])") [],
  listed "async_uuid" .attributeName "async-uuid"
    "Requests an asynchronous version of a COM interface with the given IID."
    none [],
  listed "endpoint" .attributeName "endpoint"
    "Specifies well-known protocol sequences and endpoints for an RPC server."
    none [],
  listed "helpstring" .attributeName "helpstring"
    "Attaches a short description to a library, interface, method or type."
    (some "helpstring(\"text\")") [],
  listed "in" .attributeName "in"
    "Marks a parameter passed from the caller to the callee."
    none [],
  listed "out" .attributeName "out-idl"
    "Marks a parameter passed back from the callee to the caller. It must be a pointer."
    none [],
  listed "retval" .attributeName "retval"
    ("Marks the [out] parameter that receives the method's logical return value in " ++
     "Automation clients.")
    none
    ["HRESULT GetCount([out, retval] long* count);"],
  listed "ref" .attributeName "ref"
    "Declares a reference pointer, which is never null and never aliased."
    none [],
  listed "unique" .attributeName "unique"
    "Declares a pointer that may be null but is never aliased."
    none [],
  listed "ptr" .attributeName "ptr"
    "Declares a full pointer, which may be null and may be aliased."
    none [],
  listed "string" .attributeName "string"
    "Marks a char, wchar_t or byte array or pointer as a null-terminated string."
    none [],
  listed "iid_is" .attributeName "iid-is"
    "Names the parameter holding the IID of an interface pointer."
    (some "iid_is(riid)") [],
  listed "size_is" .attributeName "size-is"
    "Gives the allocated element count of a conformant array or pointer."
    (some "size_is(count)") [],
  listed "length_is" .attributeName "length-is"
    "Gives the number of array elements to transmit."
    none [],
  listed "range" .attributeName "range"
    "Restricts a numeric argument or field to an inclusive range checked at run time."
    (some "range(low, high)") [],
  listed "max_is" .attributeName "max-is"
    ("Gives the highest valid index of a conformant array, so the array holds max_is + 1 " ++
     "elements. An alternative to size_is.")
    (some "[max_is(expression)]")
    ["HRESULT Fill([in] long last, [in, max_is(last)] long items[]);"],
  listed "first_is" .attributeName "first-is"
    "Gives the index of the first array element that is transmitted."
    (some "[first_is(expression)]") [],
  listed "last_is" .attributeName "last-is"
    "Gives the index of the last array element that is transmitted."
    (some "[last_is(expression)]") [],
  listed "propget" .attributeName "propget"
    "Marks a method as a property accessor that reads the property."
    none [],
  listed "propput" .attributeName "propput"
    "Marks a method as a property setter taking the value by value."
    none [],
  listed "propputref" .attributeName "propputref"
    "Marks a method as a property setter taking the value by reference."
    none [],
  listed "id" .attributeName "id"
    "Assigns the DISPID of a member of a dispatch interface."
    (some "id(number)") [],
  listed "default" .attributeName "default"
    "Marks the default interface of a coclass, or the default member of a dispinterface."
    none [],
  listed "source" .attributeName "source"
    "Marks an interface of a coclass as an outgoing event source."
    none [],
  listed "hidden" .attributeName "hidden"
    "Hides an item from user-oriented browsers."
    none [],
  listed "restricted" .attributeName "restricted"
    "Prevents a library, member or interface from being used by macro programmers."
    none [],
  listed "optional" .attributeName "optional"
    "Marks a VARIANT parameter as optional."
    none [],
  listed "defaultvalue" .attributeName "defaultvalue"
    "Supplies a default value for an optional parameter."
    (some "defaultvalue(value)") [],
  listed "noncreatable" .attributeName "noncreatable"
    "Marks a coclass that clients cannot instantiate directly."
    none [],
  listed "nonextensible" .attributeName "nonextensible"
    "States that the IDispatch implementation exposes only the listed members."
    none [],
  listed "custom" .attributeName "custom"
    "Attaches a GUID-keyed custom value to a type library item."
    (some "custom(guid, value)") [],
  listed "vararg" .attributeName "vararg"
    ("Marks a method whose last parameter is a SAFEARRAY of VARIANT values holding a " ++
     "variable number of arguments.")
    (some "[vararg]") [],
  listed "bindable" .attributeName "bindable"
    "Marks a property that sends change notifications to its container."
    (some "[bindable]") [],
  listed "requestedit" .attributeName "requestedit"
    "Marks a property that asks its container for permission before the value changes."
    (some "[requestedit]") [],
  listed "displaybind" .attributeName "displaybind"
    "Marks a bindable property that should be shown to the user as bindable."
    (some "[displaybind]") [],
  listed "defaultbind" .attributeName "defaultbind"
    "Marks the bindable property that best represents the object."
    (some "[defaultbind]") [],
  listed "immediatebind" .attributeName "immediatebind"
    ("Asks the container to be notified of every change to a bindable property, not only " ++
     "when focus leaves the field.")
    (some "[immediatebind]") [],
  listed "aggregatable" .attributeName "aggregatable"
    "Marks a coclass that can be aggregated by another object."
    (some "[aggregatable]") [],
  listed "appobject" .attributeName "appobject"
    ("Marks a coclass as the application object, whose members are reachable without " ++
     "qualification.")
    (some "[appobject]") [],
  listed "control" .attributeName "control"
    "Marks a coclass or library as an ActiveX control."
    (some "[control]") [],
  listed "licensed" .attributeName "licensed"
    "Marks a coclass whose instances can only be created with a license."
    (some "[licensed]") [],
  listed "helpcontext" .attributeName "helpcontext"
    "Sets the context ID of the help topic for a library element."
    (some "helpcontext(id)") [],
  listed "helpfile" .attributeName "helpfile"
    "Names the help file for a type library."
    (some "helpfile(\"filename.chm\")") [],
  listed "lcid" .attributeName "lcid"
    ("Sets the locale of a type library, or marks a parameter that receives the caller's " ++
     "locale ID.")
    (some "lcid(locale-id)") [],
  listed "dllname" .attributeName "dllname"
    "Names the DLL that exports the entry points of a module."
    (some "dllname(\"filename.dll\")") [],
  listed "entry" .attributeName "entry"
    "Names the exported DLL function behind a module member, by name or ordinal."
    (some "[entry(\"name\")] or [entry(ordinal)]") [],
  listed "public" .attributeName "public"
    "Makes a typedef visible in the type library even when it is not used."
    (some "[public]") [],
  listed "readonly" .attributeName "readonly"
    "Marks a property or variable that cannot be assigned."
    (some "[readonly]") [],
  listed "uidefault" .attributeName "uidefault"
    "Marks the member shown by default in the user interface."
    (some "[uidefault]") [],
  listed "nonbrowsable" .attributeName "nonbrowsable"
    "Hides a property from property browsers while keeping it usable from code."
    (some "[nonbrowsable]") [],
  listed "usesgetlasterror" .attributeName "usesgetlasterror"
    "Marks a module function that reports errors through SetLastError."
    (some "[usesgetlasterror]") [],
  listed "v1_enum" .attributeName "v1-enum"
    "Transmits the enumeration as a 32-bit value instead of 16 bits."
    none [],
  listed "switch_is" .attributeName "switch-is"
    "Names the discriminant of a nonencapsulated union."
    none [],
  listed "switch_type" .attributeName "switch-type"
    "Declares the type of a nonencapsulated union's discriminant."
    none [],
  listed "wire_marshal" .attributeName "wire-marshal"
    "Declares a type used for transmission in place of an application type."
    none [],
  listed "call_as" .attributeName "call-as"
    "Maps a local, non-remotable method to a remotable one."
    none [],
  listed "context_handle" .attributeName "context-handle"
    "Declares a handle that keeps server state across calls from one client."
    none [],
  listed "transmit_as" .attributeName "transmit-as"
    ("Sends a presented type over the wire as a different, transmissible type, converted by " ++
     "user-supplied routines.")
    (some "[transmit_as(xmit-type)]") [],
  listed "user_marshal" .attributeName "user-marshal"
    "Maps a local type to a wire type marshaled by user-supplied routines."
    (some "[user_marshal(wire-type)]") [],
  listed "represent_as" .attributeName "represent-as"
    ("Lets the application work with a local type while the stubs transmit the network " ++
     "type. Used in the ACF.")
    (some "[represent_as(local-type)]") [],
  listed "handle" .attributeName "handle"
    "Declares a user-defined binding handle type."
    (some "[handle]") [],
  listed "allocate" .attributeName "allocate"
    "Controls how the stubs allocate and free memory for a type. Used in the ACF."
    (some "[allocate(option)]") [],
  listed "enable_allocate" .attributeName "enable-allocate"
    "Makes the server stub set up its memory management environment."
    (some "[enable_allocate]") [],
  listed "encode" .attributeName "encode"
    "Generates serialization routines that encode a type or procedure."
    (some "[encode]") [],
  listed "decode" .attributeName "decode"
    "Generates serialization routines that decode a type or procedure."
    (some "[decode]") [],
  listed "ignore" .attributeName "ignore"
    "Leaves a pointer out of marshaling; it is not transmitted."
    (some "[ignore]") [],
  listed "partial_ignore" .attributeName "partial-ignore"
    ("Sends only whether an in/out pointer is null on the way in, while the full value " ++
     "comes back out.")
    (some "[partial_ignore]") [],
  listed "system_handle" .attributeName "system-handle"
    "Marshals an operating system handle such as a file or event handle."
    (some "[system_handle(handle-type)]") [],
  listed "annotation" .attributeName "annotate"
    "Attaches a SAL annotation that MIDL copies into the generated header."
    (some "[annotation(\"sal-annotation\")]") [],
  listed "callback" .attributeName "callback"
    "Declares a procedure that the server calls back on the client."
    (some "[callback]") [],
  listed "async" .attributeName "async"
    "Makes a remote procedure asynchronous. Used in the ACF."
    (some "[async]") [],
  listed "idempotent" .attributeName "idempotent"
    "Marks an operation that may safely run more than once for one call."
    (some "[idempotent]") [],
  listed "broadcast" .attributeName "broadcast"
    "Sends the call to every server on the network and keeps the first reply."
    (some "[broadcast]") [],
  listed "maybe" .attributeName "maybe"
    "Marks a call whose caller neither needs nor gets a reply or delivery guarantee."
    (some "[maybe]") [],
  listed "message" .attributeName "message"
    "Sends the call as an asynchronous message through the message queue transport."
    (some "[message]") [],
  listed "auto_handle" .attributeName "auto-handle"
    "Lets the client stub bind to a server automatically. Used in the ACF."
    (some "[auto_handle]") [],
  listed "implicit_handle" .attributeName "implicit-handle"
    "Names a global variable used as the binding handle for every call."
    (some "[implicit_handle(handle-type name)]") [],
  listed "explicit_handle" .attributeName "explicit-handle"
    "Adds an explicit binding handle parameter to every procedure."
    (some "[explicit_handle]") [],
  listed "fault_status" .attributeName "fault-status"
    "Returns server fault codes through an error_status_t parameter instead of raising."
    (some "[fault_status]") [],
  listed "comm_status" .attributeName "comm-status"
    ("Returns communication failures through an error_status_t parameter instead of " ++
     "raising.")
    (some "[comm_status]") [],
  listed "code" .attributeName "code"
    "Generates stub code for the marked procedures. Used in the ACF."
    (some "[code]") [],
  listed "nocode" .attributeName "nocode"
    "Skips stub generation for the marked procedures. Used in the ACF."
    (some "[nocode]") [],
  listed "notify" .attributeName "notify"
    "Makes the server stub call a notification routine after the call completes."
    (some "[notify]") [],
  listed "optimize" .attributeName "optimize"
    "Chooses the stub generation mode for a procedure or interface."
    (some "[optimize(\"mode\")]") [],
  listed "boolean" .typeName "boolean"
    "An 8-bit type holding TRUE or FALSE."
    none [],
  listed "byte" .typeName "byte"
    "An 8-bit type transmitted without any data conversion."
    none [],
  listed "char" .typeName "char-idl"
    "An 8-bit character type, unsigned by default in MIDL."
    none [],
  listed "short" .typeName "short"
    "A 16-bit integer."
    none [],
  listed "long" .typeName "long"
    "A 32-bit integer."
    none [],
  listed "hyper" .typeName "hyper"
    "A 64-bit integer."
    none [],
  listed "double" .typeName "double"
    "A 64-bit floating-point number."
    none [],
  listed "void" .typeName "void"
    "Marks a procedure with no return value or an untyped pointer."
    none [],
  listed "wchar_t" .typeName "wchar-t"
    "A 16-bit wide character."
    none [],
  listed "error_status_t" .typeName "error-status-t"
    "A 32-bit status code for RPC communication and fault errors."
    none [],
  listed "small" .typeName "small"
    "An 8-bit integer."
    none [],
  listed "int" .typeName "int"
    "A 32-bit integer. Prefer long in remote interfaces."
    none [],
  listed "float" .typeName "float"
    "A 32-bit floating-point number."
    none [],
  listed "handle_t" .typeName "handle-t"
    "A primitive binding handle for RPC calls."
    none [],
  listed "HRESULT" .typeName "oleautomation"
    "A 32-bit COM status code. Zero or positive means success, negative means failure."
    none [],
  listed "BSTR" .typeName "oleautomation"
    "A length-prefixed Unicode string allocated with SysAllocString."
    none [],
  listed "VARIANT" .typeName "oleautomation"
    "A tagged union able to hold any Automation-compatible value."
    none [],
  listed "SAFEARRAY" .typeName "oleautomation"
    "A self-describing Automation array that records its bounds and element type."
    (some "SAFEARRAY(element-type)") [],
  listed "pipe" .typeName "pipe"
    "Streams a sequence of elements of one type across a remote call in chunks."
    (some "typedef pipe element-type pipe-name;")
    ["typedef pipe long LONG_PIPE;"],
  listed "const" .modifier "const"
    "Declares a constant or a read-only parameter."
    none [],
  listed "unsigned" .modifier "unsigned"
    "Makes an integer type unsigned."
    none [],
  listed "signed" .modifier "signed"
    "Makes an integer type signed."
    none []]

end Documentation

end IdlFormat
