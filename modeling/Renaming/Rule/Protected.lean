/-!
Names that no rule may touch, since they belong to the language, the platform or a framework.
-/

namespace Renaming

/-- The names that are protected without being asked for: methods of numbers, strings, lists,
objects and dates, timers, the document, and the common frameworks. -/
def builtinNames : List String := [
    "toFixed", "toPrecision", "toString", "toLocaleString", "valueOf", "parseInt", "parseFloat",
    "isNaN", "toLowerCase", "toUpperCase", "localeCompare", "startsWith", "endsWith", "padStart",
    "padEnd", "trimStart", "trimEnd", "replaceAll", "charAt", "charCodeAt", "indexOf",
    "lastIndexOf", "forEach", "flatMap", "findIndex", "findLast", "fromEntries", "hasOwnProperty",
    "defineProperty", "getOwnPropertyNames", "isArray", "toISOString", "toDateString",
    "toTimeString", "toLocaleDateString", "toLocaleTimeString", "toUTCString", "getTime",
    "getFullYear", "getMonth", "getDate", "getDay", "getHours", "getMinutes", "getSeconds",
    "setFullYear", "setMonth", "setDate", "setHours", "JSON", "stringify", "allSettled",
    "setTimeout", "clearTimeout", "setInterval", "clearInterval", "requestAnimationFrame",
    "addEventListener", "removeEventListener", "preventDefault", "stopPropagation",
    "getElementById", "querySelector", "querySelectorAll", "createElement", "appendChild",
    "classList", "innerHTML", "textContent", "localStorage", "sessionStorage", "getItem",
    "setItem", "removeItem", "encodeURIComponent", "decodeURIComponent", "useState", "useEffect",
    "useMemo", "useCallback", "useRef", "useContext", "useReducer", "useLayoutEffect",
    "forwardRef", "createContext", "className", "htmlFor", "onClick", "onChange", "onSubmit",
    "onBlur", "onFocus", "onKeyDown", "dangerouslySetInnerHTML", "defaultValue", "key",
    "useRouter", "usePathname", "useSearchParams", "getServerSideProps", "getStaticProps",
    "NextResponse", "NextRequest", "findUnique", "findUniqueOrThrow", "findFirst", "findMany",
    "createMany", "updateMany", "deleteMany", "upsert", "aggregate", "groupBy", "orderBy",
    "$transaction", "$queryRaw", "$executeRaw", "$disconnect", "_count", "_sum"]

end Renaming
